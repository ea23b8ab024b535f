import VectorDbBenchmark.JsonText
import VectorDbBenchmark.Msmarco.StreamedCorpus

/-!
# The docid of a passage line

`extract_docid` of `src/msmarco.rs`, which takes the text between the first quotation marks
after `{"docid":` and parses the line only if it does not start so.  The text is the docid when
nothing is escaped in it and no later member has the name again.
-/

namespace VectorDbBenchmark.Msmarco

open Kit JsonText

/-! ## The code -/

/-- `strip_prefix`. -/
def stripPrefix (pat t : Text) : Option Text :=
  if pat.isPrefixOf t then some (t.drop pat.length) else none

def docidKey : Text := "docid".toList

def docidPrefix : Text := "\x7b\"docid\":".toList

/-- The docid without parsing. -/
def fastDocid (line : Text) : Option Text := do
  let rest ← stripPrefix docidPrefix line
  let rest ← stripPrefix ['"'] (trimStart rest)
  let stop ← findSub ['"'] rest
  some (rest.take stop)

variable (env : HybridEnv)

def extractDocid (line : Text) : Option String :=
  match fastDocid line with
  | some docid => some (.ofList docid)
  | none => do (← (← (fromStr env line).toOption).get "docid").asStr

variable {env}

/-! ## The fast path -/

theorem docidPrefix_eq : docidPrefix = '{' :: '"' :: (docidKey ++ ['"', ':']) := rfl

theorem stripPrefix_eq_some {pat t rest : Text} :
    stripPrefix pat t = some rest ↔ t = pat ++ rest := by
  rw [stripPrefix]
  constructor
  · intro h
    split_ifs at h with hpat
    obtain ⟨u, rfl⟩ := List.isPrefixOf_iff_prefix.mp hpat
    cases h
    rw [List.drop_left]
  · rintro rfl
    rw [if_pos (List.isPrefixOf_iff_prefix.mpr (List.prefix_append pat rest)), List.drop_left]

/-- The text up to the next quotation mark. -/
theorem fastDocid_of_eq {line : Text} {w : Blanks} {t u : Text}
    (h : line = docidPrefix ++ (w.val ++ '"' :: (t ++ '"' :: u))) :
    fastDocid line = some (beforeQuote t) := by
  have hquote : isWhiteSpace '"' = false := by decide
  obtain ⟨v, hv⟩ := exists_beforeQuote_append t u
  have hopened : stripPrefix ['"'] (trimStart (w.val ++ '"' :: (t ++ '"' :: u))) =
      some (t ++ '"' :: u) := by
    rw [trimStart_blanks_append w hquote, stripPrefix_eq_some, List.singleton_append]
  rw [fastDocid, stripPrefix_eq_some.mpr h, Option.bind_eq_bind, Option.bind_some, hopened,
    Option.bind_eq_bind, Option.bind_some, hv, findSub_singleton (quote_notMem_beforeQuote t),
    Option.bind_some, List.take_left]

theorem of_fastDocid_eq_some {line t : Text} (h : fastDocid line = some t) :
    ∃ rest u, line = docidPrefix ++ rest ∧ trimStart rest = '"' :: u := by
  obtain ⟨rest, hrest, h⟩ := Option.bind_eq_some_iff.mp h
  obtain ⟨u, hu, -⟩ := Option.bind_eq_some_iff.mp h
  exact ⟨rest, u, stripPrefix_eq_some.mp hrest, stripPrefix_eq_some.mp hu⟩

/-- The string after `{"docid":`, if the line starts so and with nothing but blanks in between. -/
def fastLiteral (line : Line) : Option Literal :=
  match line.doc with
  | .object ms =>
    if line.lead.val = [] ∧ ms.first.1.before.val = [] ∧ ms.first.1.key.text = docidKey ∧
        ms.first.1.after.val = [] then
      match ms.first.2 with
      | .string l => some l
      | _ => none
    else none
  | _ => none

theorem fastLiteral_eq_some {line : Line} {l : Literal} (h : fastLiteral line = some l) :
    ∃ ms, line.doc = .object ms ∧ line.lead.val = [] ∧ ms.first.1.before.val = [] ∧
      ms.first.1.key.text = docidKey ∧ ms.first.1.after.val = [] ∧
      ms.first.2 = .string l := by
  rw [fastLiteral] at h
  split at h
  · next ms hdoc =>
      split_ifs at h with hfirst
      split at h
      · next l' hv =>
          cases h
          exact ⟨ms, hdoc, hfirst.1, hfirst.2.1, hfirst.2.2.1, hfirst.2.2.2, hv⟩
      · cases h
  · cases h

theorem fastLiteral_of_first {line : Line} {ms : Members} {l : Literal}
    (hdoc : line.doc = .object ms) (hlead : line.lead.val = [])
    (hbefore : ms.first.1.before.val = []) (hkey : ms.first.1.key.text = docidKey)
    (hafter : ms.first.1.after.val = []) (hv : ms.first.2 = .string l) :
    fastLiteral line = some l := by
  rw [fastLiteral, hdoc]
  dsimp only
  rw [if_pos ⟨hlead, hbefore, hkey, hafter⟩, hv]

/-- The fast path takes the string, up to the first quotation mark in its text. -/
theorem fastDocid_of_fastLiteral {line : Line} {l : Literal} (h : fastLiteral line = some l) :
    fastDocid line.text = some (beforeQuote l.text) := by
  obtain ⟨ms, hdoc, hlead, hbefore, hkey, hafter, hv⟩ := fastLiteral_eq_some h
  obtain ⟨u, hu⟩ := ms.text_eq_first
  refine fastDocid_of_eq (w := ms.first.1.gap) (u := u ++ '}' :: line.trail.val) ?_
  rw [Line.text, hdoc, hlead, Doc.text, hu, MemberName.text, hbefore, hkey, hafter, hv, Doc.text,
    docidPrefix_eq]
  simp

theorem blanks_cons_ne {w : Blanks} {c d : Char} {t u : Text} (hc : isBlank c = false)
    (hd : c ≠ d) : w.val ++ d :: t ≠ c :: u := by
  intro h
  rw [eq_nil_of_blanks_append hc h] at h
  exact hd (List.cons.inj h).1.symm

/-- Nothing else is taken. -/
theorem exists_fastLiteral {line : Line} {t : Text} (h : fastDocid line.text = some t) :
    ∃ l, fastLiteral line = some l := by
  obtain ⟨rest, u, hline, hrest⟩ := of_fastDocid_eq_some h
  have hopen : isBlank '{' = false := by decide
  have hquote : isBlank '"' = false := by decide
  have hcolon : isBlank ':' = false := by decide
  have hkeyQuote : '"' ∉ docidKey := by decide
  have hkeyBackslash : '\\' ∉ docidKey := by decide
  obtain ⟨c, v, hc, -⟩ := line.doc.head_text
  rw [docidPrefix_eq, Line.text, hc, List.append_assoc, List.cons_append, List.cons_append] at hline
  have hlead := eq_nil_of_blanks_append hopen hline
  rw [hlead, List.nil_append, List.cons.injEq] at hline
  obtain ⟨rfl, hline⟩ := hline
  rcases Doc.eq_object_of_text hc with ⟨blanks, hdoc⟩ | ⟨ms, hdoc⟩
  · rw [hdoc, Doc.text, List.cons.injEq] at hc
    rw [← hc.2, List.append_assoc, List.singleton_append, List.cons_append] at hline
    exact absurd hline (blanks_cons_ne hquote (by decide))
  · obtain ⟨w, hw⟩ := ms.text_eq_first
    rw [hdoc, Doc.text, List.cons.injEq, hw, MemberName.text] at hc
    rw [← hc.2] at hline
    simp only [List.append_assoc, List.cons_append, List.nil_append] at hline
    have hbefore := eq_nil_of_blanks_append hquote hline
    rw [hbefore, List.nil_append, List.cons.injEq] at hline
    obtain ⟨hkey, hline⟩ := Literal.text_eq_of_append_eq hkeyQuote hkeyBackslash hline.2
    have hafter := eq_nil_of_blanks_append hcolon hline
    rw [hafter, List.nil_append, List.cons.injEq] at hline
    obtain ⟨d, x, hd, hsolid⟩ := ms.first.2.head_text
    rw [← hline.2, hd, List.cons_append, trimStart_blanks_append _ hsolid,
      List.cons.injEq] at hrest
    rw [hrest.1] at hd
    obtain ⟨l, hl⟩ := Doc.eq_string_of_text hd
    exact ⟨l, fastLiteral_of_first hdoc hlead hbefore hkey hafter hl⟩

/-! ## Against the parser -/

/-- Whether a member after the first is named `docid`. -/
def docidAgain (ms : Members) : Bool := ms.entries.tail.any fun e ↦ e.1 = "docid"

/-- What the parser gives for the docid that no later member replaces. -/
theorem get_docid_of_first {ms : Members} {l : Literal} (hkey : ms.first.1.key.text = docidKey)
    (hv : ms.first.2 = .string l) (honce : docidAgain ms = false) :
    (toValue (.object ms.entries)).get "docid" = some (.string (.ofList l.value)) := by
  have hname : ms.first.1.key.value = docidKey := by
    rw [← hkey]
    exact (Literal.text_eq_value (hkey ▸ by decide)).1.symm
  have htail : (ms.entries.tail.filter fun e ↦ e.1 = "docid") = [] := by
    rw [List.filter_eq_nil_iff]
    intro e he hdocid
    exact Bool.false_ne_true (honce.symm.trans (List.any_eq_true.mpr ⟨e, he, hdocid⟩))
  have hfirst : String.ofList docidKey = "docid" := rfl
  have hdocids : (ms.entries.filter fun e ↦ e.1 = "docid") =
      [("docid", .string (.ofList l.value))] := by
    have hsame : decide ("docid" = "docid") = true := decide_eq_true rfl
    rw [ms.entries_eq_first, hname, hfirst, hv, List.filter_cons, if_pos hsame, htail, Doc.tree]
  rw [toValue, Json.get, getEntry_lastEntries, toValueIn_eq, List.filter_map, List.getLast?_map,
    Option.map_map]
  exact congrArg (fun es : List (String × Json) ↦ es.getLast?.map fun e ↦ toValue e.2) hdocids

theorem extractDocid_of_fast {env : HybridEnv} {line : Line} {l : Literal}
    (h : fastLiteral line = some l) :
    extractDocid env line.text = some (.ofList (beforeQuote l.text)) := by
  rw [extractDocid, fastDocid_of_fastLiteral h]

theorem extractDocid_of_slow {env : HybridEnv} {line : Line} {docid : String}
    (h : fastLiteral line = none) (hparse : env.parse line.text = .ok line.doc.tree)
    (hdocid : (toValue line.doc.tree).get "docid" = some (.string docid)) :
    extractDocid env line.text = some docid := by
  have hfast : fastDocid line.text = none := by
    rw [Option.eq_none_iff_forall_ne_some]
    intro t ht
    obtain ⟨l, hl⟩ := exists_fastLiteral ht
    rw [h] at hl
    cases hl
  have hvalue : (fromStr env line.text).toOption = some (toValue line.doc.tree) := by
    rw [fromStr, hparse]
    rfl
  rw [extractDocid, hfast]
  dsimp only
  rw [hvalue, Option.bind_eq_bind, Option.bind_some, hdocid]
  rfl

/-- The docid that is extracted is the one that the parser gives, exactly when the line does not
start with `{"docid":` and a string, or the string has no escapes and is the only docid, or a
later docid is what stands before the first quotation mark in its text. -/
theorem extractDocid_eq_iff {env : HybridEnv} {line : Line} {docid : String}
    (hparse : env.parse line.text = .ok line.doc.tree)
    (hdocid : (toValue line.doc.tree).get "docid" = some (.string docid)) :
    extractDocid env line.text = some docid ↔
      ∀ ms l, line.doc = .object ms → fastLiteral line = some l →
        if docidAgain ms then docid.toList = beforeQuote l.text else '\\' ∉ l.text := by
  cases hfast : fastLiteral line with
  | none => exact iff_of_true (extractDocid_of_slow hfast hparse hdocid) (by simp)
  | some l =>
      obtain ⟨ms, hdoc, -, -, hkey, -, hv⟩ := fastLiteral_eq_some hfast
      have hstring : extractDocid env line.text = some docid ↔
          docid.toList = beforeQuote l.text := by
        rw [extractDocid_of_fast hfast, Option.some_inj]
        constructor
        · rintro rfl
          exact String.toList_ofList
        · intro h
          rw [← h, String.ofList_toList]
      have hcond : (∀ ms' l', line.doc = .object ms' → some l = some l' →
          if docidAgain ms' then docid.toList = beforeQuote l'.text else '\\' ∉ l'.text) ↔
          if docidAgain ms then docid.toList = beforeQuote l.text else '\\' ∉ l.text := by
        constructor
        · exact fun h ↦ h ms l hdoc rfl
        · intro h ms' l' hdoc' hl
          rw [hdoc, Doc.object.injEq] at hdoc'
          cases hl
          exact hdoc' ▸ h
      rw [hstring, hcond]
      split_ifs with hagain
      · exact Iff.rfl
      · rw [hdoc, Doc.tree, get_docid_of_first hkey hv (Bool.not_eq_true _ ▸ hagain),
          Option.some_inj, Json.string.injEq] at hdocid
        rw [← hdocid, String.toList_ofList, eq_comm, Literal.beforeQuote_text_eq_value_iff]

/-! ## Lines with a docid alone -/

def docidLine (lead : Blanks) (docid : Literal) : Line where
  lead := lead
  doc := .object (.last ⟨noBlanks, Literal.ofPlain docidKey, noBlanks, noBlanks⟩ (.string docid)
    noBlanks)
  trail := noBlanks

/-- `a"b`, in its JSON text. -/
def quotedDocid : Literal :=
  Literal.ofPlain ['a'] ++ .short '"' '"' List.mem_cons_self :: Literal.ofPlain ['b']

def plainLine : Line := docidLine noBlanks (Literal.ofPlain ['a'])

def quotedLine (lead : Blanks) : Line := docidLine lead quotedDocid

def oneBlank : Blanks := ⟨[' '], fun _ h ↦ List.mem_singleton.mp h ▸ rfl⟩

/-- A parser that knows one line. -/
def envOfLine (line : Line) : HybridEnv :=
  { envOfA [] with parse := fun t ↦
      if t = line.text then .ok line.doc.tree else .error "expected value" }

theorem parse_envOfLine (line : Line) : (envOfLine line).parse line.text = .ok line.doc.tree :=
  if_pos rfl

/-- A docid without escapes on the fast path, and one with an escape, which a blank keeps from
it. -/
theorem extractDocid_plainLine :
    extractDocid (envOfLine plainLine) plainLine.text = some "a" ∧
      extractDocid (envOfLine (quotedLine oneBlank)) (quotedLine oneBlank).text = some "a\"b" := by
  constructor
  · refine (extractDocid_eq_iff (parse_envOfLine plainLine) rfl).mpr ?_
    intro ms l hdoc hfast
    cases hdoc
    cases hfast
    rw [if_neg (by decide)]
    decide
  · refine (extractDocid_eq_iff (parse_envOfLine (quotedLine oneBlank)) rfl).mpr ?_
    intro ms l hdoc hfast
    cases hfast

/-- An escaped quotation mark ends the docid. -/
theorem extractDocid_quotedLine :
    (quotedLine noBlanks).text = "\x7b\"docid\":\"a\\\"b\"\x7d".toList ∧
      (toValue (quotedLine noBlanks).doc.tree).get "docid" = some (.string "a\"b") ∧
      extractDocid (envOfLine (quotedLine noBlanks)) (quotedLine noBlanks).text = some "a\\" :=
  ⟨rfl, rfl, rfl⟩

end VectorDbBenchmark.Msmarco
