import VectorDbBenchmark.JsonEq
import VectorDbBenchmark.Kit.Lines
import VectorDbBenchmark.Kit.Sections

/-!
# The `INFO` parser

`parse_info` of `src/parsers.rs`: `# Section` headers and `key:value` lines become an object of
objects.  A header always starts a new object, and at the next header it replaces what the name
had before, so that a section which is opened twice keeps only its last lines.
-/

namespace VectorDbBenchmark.Parsers

open Kit Sections

/-- `trim_end_matches('\r')`. -/
def trimEndCr (line : Text) : Text := (line.reverse.dropWhile (· = '\r')).reverse

/-- `split_once(':')`. -/
def splitOnce (sep : Char) (line : Text) : Option (Text × Text) :=
  if sep ∈ line then some (line.takeWhile (· ≠ sep), (line.dropWhile (· ≠ sep)).tail) else none

/-- What the loop makes of a line. -/
def infoLine (raw : Text) : Item String String Json :=
  let line := trimEndCr raw
  match trim line with
  | [] => .skip
  | '#' :: ' ' :: name => .header (.ofList (trim name))
  | '#' :: _ => .skip
  | _ =>
    match splitOnce ':' line with
    | some (k, v) => .entry (.ofList k) (.string (.ofList v))
    | none => .skip

def parseInfo (info : Text) : Json :=
  let st : State String String Json := (bufLines info).foldl
    (fun st raw ↦ st.step (infoLine raw)) ⟨[], "default", []⟩
  .object (st.store.map fun entry ↦ (entry.1, .object entry.2))

/-! ## Lines -/

section Lines

theorem trimEndCr_of_getLast {line : Text} (h : line.getLast? ≠ some '\r') :
    trimEndCr line = line := by
  rw [← List.head?_reverse] at h
  rw [trimEndCr]
  cases hrev : line.reverse with
  | nil =>
      rw [List.reverse_eq_nil_iff.mp hrev]
      rfl
  | cons c rest =>
      rw [hrev, List.head?_cons, ne_eq, Option.some_inj] at h
      rw [List.dropWhile_cons, decide_eq_false h, if_neg Bool.false_ne_true, ← hrev,
        List.reverse_reverse]

/-- What is left as it is has no blank at its end. -/
theorem trimStart_reverse_of_trim_eq {t : Text} (h : trim t = t) :
    trimStart t.reverse = t.reverse := by
  have hlen : (trimStart (trimStart t).reverse).length = t.length := by
    rw [← List.length_reverse, ← trim, h]
  have hinner : (trimStart (trimStart t).reverse).length ≤ (trimStart t).length :=
    (List.dropWhile_suffix _).length_le.trans_eq List.length_reverse
  have hsuffix : trimStart t <:+ t := List.dropWhile_suffix _
  have hstart : trimStart t = t :=
    hsuffix.eq_of_length (le_antisymm hsuffix.length_le (hlen ▸ hinner))
  have hreverse := congrArg List.reverse h
  rwa [trim, hstart, List.reverse_reverse] at hreverse

theorem solid_of_trimStart_eq {c : Char} {t : Text} (h : trimStart (c :: t) = c :: t) :
    isWhiteSpace c = false := by
  by_contra hblank
  rw [Bool.not_eq_false] at hblank
  have hdrop : trimStart (c :: t) = trimStart t := List.dropWhile_cons_of_pos hblank
  have hle : (trimStart t).length ≤ t.length := (List.dropWhile_suffix _).length_le
  rw [← hdrop, h] at hle
  exact absurd hle (Nat.not_succ_le_self _)

/-- A text that ends in a name without blanks around it. -/
theorem exists_reverse_append_eq {name : Text} (hname : name ≠ []) (htrim : trim name = name)
    (front : Text) :
    ∃ c rest, (front ++ name).reverse = c :: rest ∧ isWhiteSpace c = false := by
  obtain ⟨c, rest, hrev⟩ := List.exists_cons_of_ne_nil (List.reverse_ne_nil_iff.mpr hname)
  refine ⟨c, rest ++ front.reverse, ?_, ?_⟩
  · rw [List.reverse_append, hrev, List.cons_append]
  · exact solid_of_trimStart_eq (hrev ▸ trimStart_reverse_of_trim_eq htrim)

theorem getLast?_header_ne {name : Text} (hname : name ≠ []) (htrim : trim name = name) :
    ('#' :: ' ' :: name).getLast? ≠ some '\r' := by
  obtain ⟨c, rest, hrev, hc⟩ := exists_reverse_append_eq hname htrim ['#', ' ']
  have hhead : ('#' :: ' ' :: name).reverse.head? = some c := congrArg List.head? hrev
  rw [← List.head?_reverse, hhead, ne_eq, Option.some_inj]
  rintro rfl
  exact absurd hc (by decide)

theorem getLast?_entry_ne (key : Text) {value : Text} (hvalue : value.getLast? ≠ some '\r') :
    (key ++ ':' :: value).getLast? ≠ some '\r' := by
  rw [List.getLast?_append, List.getLast?_cons]
  cases h : value.getLast? with
  | none => simp
  | some c => simpa [h] using hvalue

/-- A header, with a name that has no blanks around it. -/
theorem infoLine_header {name : Text} (hname : name ≠ []) (htrim : trim name = name) :
    infoLine ('#' :: ' ' :: name) = .header (.ofList name) := by
  have hkept : (trimStart (' ' :: name).reverse).reverse = ' ' :: name := by
    obtain ⟨c, rest, hrev, hc⟩ := exists_reverse_append_eq hname htrim [' ']
    have hsame : trimStart ([' '] ++ name).reverse = ([' '] ++ name).reverse := by
      rw [hrev]
      exact List.dropWhile_cons_of_neg (by rw [hc]; decide)
    rw [← List.singleton_append, hsame, List.reverse_reverse]
  have hhash : isWhiteSpace '#' = false := by decide
  have hwhole : trim ('#' :: ' ' :: name) = '#' :: ' ' :: name := by
    rw [trim_cons_solid hhash, hkept]
  rw [infoLine, trimEndCr_of_getLast (getLast?_header_ne hname htrim), hwhole]
  exact congrArg (fun n ↦ Item.header (String.ofList n)) htrim

theorem splitOnce_append {sep : Char} {front : Text} (h : sep ∉ front) (back : Text) :
    splitOnce sep (front ++ sep :: back) = some (front, back) := by
  rw [splitOnce, if_pos (List.mem_append_right _ List.mem_cons_self), takeWhile_ne_append h,
    dropWhile_ne_append h, List.tail_cons]

/-- The first character of such a line is that of its key, if the key has any. -/
theorem exists_trim_cons {key : Text} (h : (trimStart key).head? ≠ some '#') (value : Text) :
    ∃ c rest, trim (key ++ ':' :: value) = c :: rest ∧ c ≠ '#' := by
  have hcolon : isWhiteSpace ':' = false := by decide
  induction key with
  | nil => exact ⟨':', _, trim_cons_solid hcolon value, by decide⟩
  | cons c key ih =>
      cases hc : isWhiteSpace c with
      | true =>
          rw [trimStart, List.dropWhile_cons_of_pos hc] at h
          rw [List.cons_append, trim_cons_blank hc]
          exact ih h
      | false =>
          rw [trimStart, List.dropWhile_cons, hc, if_neg Bool.false_ne_true, List.head?_cons] at h
          exact ⟨c, _, trim_cons_solid hc _, fun heq ↦ h (congrArg some heq)⟩

/-- A key that starts like no comment, and a value. -/
theorem infoLine_entry {key value : Text} (hkey : ':' ∉ key)
    (hcomment : (trimStart key).head? ≠ some '#') (hvalue : value.getLast? ≠ some '\r') :
    infoLine (key ++ ':' :: value) = .entry (.ofList key) (.string (.ofList value)) := by
  obtain ⟨c, rest, htrim, hc⟩ := exists_trim_cons hcomment value
  rw [infoLine, trimEndCr_of_getLast (getLast?_entry_ne key hvalue), htrim, splitOnce_append hkey]
  split
  · next heq => cases heq
  · next heq => exact absurd (List.cons.inj heq).1 hc
  · next heq => exact absurd (List.cons.inj heq).1 hc
  · rfl

end Lines

/-! ## What is found -/

/-- The lines under the headers, those before the first one under `default`. -/
def infoRuns (info : Text) : List (String × List (String × Json)) :=
  runs "default" [] ((bufLines info).map infoLine)

/-- The value found for a key of a section. -/
def infoValue (info : Text) (name key : String) : Option Json :=
  ((parseInfo info).get name).bind (Json.get key)

theorem getEntry_map_object (name : String) (root : List (String × List (String × Json))) :
    Json.getEntry name (root.map fun r ↦ (r.1, Json.object r.2)) =
      (root.lookup name).map Json.object := by
  induction root with
  | nil => rfl
  | cons r root ih =>
      obtain ⟨n, es⟩ := r
      rw [List.map_cons, Json.getEntry, lookup_cons_eq, ih]
      by_cases h : n = name
      · rw [if_pos h, if_pos h.symm, Option.map_some]
      · rw [if_neg h, if_neg (Ne.symm h)]

/-- The object is built stretch by stretch. -/
theorem infoValue_eq (info : Text) (name key : String) :
    infoValue info name key = ((build (infoRuns info)).lookup name).bind (List.lookup key) := by
  have hroot : parseInfo info =
      .object ((build (infoRuns info)).map fun entry ↦ (entry.1, .object entry.2)) := by
    rw [parseInfo, build, infoRuns, ← store_foldl_step, List.foldl_map]
    rfl
  have hobject : ∀ es : Option (List (String × Json)),
      (es.map Json.object).bind (Json.get key) = es.bind (List.lookup key) := by
    rintro (_ | es)
    · rfl
    · exact Json.getEntry_eq_lookup key es
  rw [infoValue, hroot, Json.get, getEntry_map_object, hobject]

/-! ## Texts of headers and values -/

/-- What an `INFO` text is made of. -/
inductive InfoLine where
  | blank
  | header (name : Text)
  | entry (key value : Text)
deriving DecidableEq, Repr

namespace InfoLine

def text : InfoLine → Text
  | blank => []
  | header name => '#' :: ' ' :: name
  | entry key value => key ++ ':' :: value

/-- Names without blanks around them, keys that start like no comment, and values up to the end
of the line. -/
def WellFormed : InfoLine → Prop
  | blank => True
  | header name => name ≠ [] ∧ trim name = name ∧ '\n' ∉ name
  | entry key value => ':' ∉ key ∧ (trimStart key).head? ≠ some '#' ∧ '\n' ∉ key ∧ '\n' ∉ value ∧
      value.getLast? ≠ some '\r'

instance (l : InfoLine) : Decidable l.WellFormed :=
  match l with
  | blank => inferInstanceAs (Decidable True)
  | header name => inferInstanceAs (Decidable (name ≠ [] ∧ trim name = name ∧ '\n' ∉ name))
  | entry key value =>
    inferInstanceAs (Decidable (':' ∉ key ∧ (trimStart key).head? ≠ some '#' ∧ '\n' ∉ key ∧
      '\n' ∉ value ∧ value.getLast? ≠ some '\r'))

/-- What a line says. -/
def item : InfoLine → Item String String Json
  | blank => .skip
  | header name => .header (.ofList name)
  | entry key value => .entry (.ofList key) (.string (.ofList value))

variable {l : InfoLine}

theorem WellFormed.infoLine_eq (h : l.WellFormed) : infoLine l.text = l.item := by
  cases l with
  | blank => rfl
  | header name => exact infoLine_header h.1 h.2.1
  | entry key value => exact infoLine_entry h.1 h.2.1 h.2.2.2.2

theorem WellFormed.newline_notMem (h : l.WellFormed) : '\n' ∉ l.text := by
  cases l with
  | blank => exact List.not_mem_nil
  | header name =>
      obtain ⟨-, -, hname⟩ := h
      simpa [text] using hname
  | entry key value =>
      obtain ⟨-, -, hkey, hvalue, -⟩ := h
      simpa [text] using ⟨hkey, hvalue⟩

theorem WellFormed.getLast?_ne (h : l.WellFormed) : l.text.getLast? ≠ some '\r' := by
  cases l with
  | blank => simp [text]
  | header name => exact getLast?_header_ne h.1 h.2.1
  | entry key value => exact getLast?_entry_ne key h.2.2.2.2

end InfoLine

/-- The lines of an `INFO` text. -/
abbrev InfoDoc := List {l : InfoLine // l.WellFormed}

namespace InfoDoc

/-- The text, with a line feed or `\r\n` after each line. -/
def text (crlf : Bool) (doc : InfoDoc) : Text :=
  doc.flatMap fun l ↦ l.val.text ++ if crlf then ['\r', '\n'] else ['\n']

/-- The lines under the headers, those before the first one under `default`. -/
def runs (doc : InfoDoc) : List (String × List (String × Json)) :=
  Sections.runs "default" [] (doc.map fun l ↦ l.val.item)

theorem bufLines_text (crlf : Bool) (doc : InfoDoc) :
    bufLines (doc.text crlf) = doc.map fun l ↦ l.val.text := by
  rw [text]
  induction doc with
  | nil => rfl
  | cons l doc ih =>
      rw [List.flatMap_cons, List.append_assoc, List.map_cons]
      cases crlf with
      | true => exact (bufLines_append_crlf l.2.newline_notMem _).trans (congrArg _ ih)
      | false => exact (bufLines_append l.2.newline_notMem l.2.getLast?_ne _).trans (congrArg _ ih)

/-- The parser sees the lines that were written. -/
theorem infoRuns_text (crlf : Bool) (doc : InfoDoc) : infoRuns (doc.text crlf) = doc.runs := by
  rw [infoRuns, bufLines_text, List.map_map, runs]
  refine congrArg (Sections.runs "default" []) (List.map_congr_left fun l _ ↦ ?_)
  exact l.2.infoLine_eq

end InfoDoc

/-- Every value of the text is found under its section, the last one of its key, exactly when in
each section every key recurs behind the last header with values. -/
theorem parseInfo_complete_iff (crlf : Bool) (doc : InfoDoc) :
    (∀ name key value, lastValue key (entriesOf name doc.runs) = some value →
      infoValue (doc.text crlf) name key = some value) ↔ Recurs doc.runs := by
  simp only [infoValue_eq, InfoDoc.infoRuns_text]
  exact found_iff doc.runs

/-- The section `A` is opened twice, and its first key is lost. -/
theorem parseInfo_openedTwice :
    ∃ doc : InfoDoc, doc.text true = "# A\r\nx:1\r\n# A\r\ny:2\r\n".toList ∧
      lastValue "x" (entriesOf "A" doc.runs) = some (.string "1") ∧
      infoValue (doc.text true) "A" "x" = none := by
  have hheader : (InfoLine.header ['A']).WellFormed := by decide
  have hx : (InfoLine.entry ['x'] ['1']).WellFormed := by decide
  have hy : (InfoLine.entry ['y'] ['2']).WellFormed := by decide
  refine ⟨[⟨_, hheader⟩, ⟨_, hx⟩, ⟨_, hheader⟩, ⟨_, hy⟩], rfl, ?_, ?_⟩
  · rfl
  · rfl

end VectorDbBenchmark.Parsers
