import VectorDbBenchmark.Redis.LiteralQuery
import VectorDbBenchmark.Valkey.Filter

/-!
# Reading Valkey filters

Leaves with literal values: the tags in braces are split at bars without a backslash, and the
blanks around them do not count; an end of an interval is exclusive behind a parenthesis.  How
the server reads numerals, holds integers and folds the case of tags is left open.
-/

namespace VectorDbBenchmark.Valkey

open Kit Redis

structure Server where
  readNumber : Text → Option F64
  ofInt : ℤ → F64
  fold : Text → Text

/-- Tags are trimmed, and only an opening brace needs a backslash beside what ends a tag. -/
def Server.dialect (server : Server) : Dialect :=
  ⟨server.readNumber, trim, fun c ↦ c = '\x7b', false⟩

def readQuery (server : Server) (t : Text) : Option (Formula QueryLeaf) :=
  QuerySyntax.parse (leafMachine server.dialect) t

/-! ## Meaning -/

structure Document where
  tags : Text → List Text
  number : Text → Option ℚ

section Meaning

variable (server : Server) (d : Document)

/-- Whether a field has a tag, without regard to case and to the blanks around it. -/
def Document.hasTag (field value : Text) : Bool :=
  (d.tags field).any fun t ↦ server.fold (trim t) = server.fold value

/-- The truth of a leaf of a filter. -/
def clauseHolds : QueryLeaf → Bool
  | .tag field values => values.any (d.hasTag server field)
  | .numeric field lo hi => (d.number field).any fun q ↦ lo.below (.fin q) && hi.above (.fin q)
  | .text _ _ => false

end Meaning

/-! ## Rendered leaves are read back -/

section ReadBack

variable {server : Server} {field : Text}

/-! ### Tags -/

/-- The characters that would end a tag. -/
def isTagMark (c : Char) : Bool := c = '\\' || c = '|' || c = '\x7b' || c = '\x7d'

theorem replaceChar_escapeBy {special : Char → Bool} {c : Char} (hc : c ≠ '\\')
    (hspecial : special c = false) (t : Text) :
    replaceChar c ['\\', c] (escapeBy special t) = escapeBy (fun d ↦ special d || d = c) t := by
  rw [replaceChar, escapeBy, List.flatMap_assoc, escapeBy]
  apply List.flatMap_congr
  intro d _
  by_cases hd : special d = true
  · have hne : d ≠ c := by
      rintro rfl
      rw [hspecial] at hd
      cases hd
    simp [hd, hne, hc.symm]
  · by_cases hdc : d = c
    · simp [hdc, hspecial]
    · simp [hd, hdc]

theorem escapeTagValue_eq (t : Text) : escapeTagValue t = escapeBy isTagMark t := by
  have hback : replaceChar '\\' ['\\', '\\'] t = escapeBy (fun d ↦ d = '\\') t := by
    rw [replaceChar, escapeBy]
    apply List.flatMap_congr
    intro d _
    by_cases hd : d = '\\' <;> simp [hd]
  rw [escapeTagValue, hback, replaceChar_escapeBy (by decide) (by decide),
    replaceChar_escapeBy (by decide) (by decide), replaceChar_escapeBy (by decide) (by decide)]
  rfl

theorem readLeaf_escaped (values : List Text) (value v t : Text) :
    QuerySyntax.readLeaf (leafMachine server.dialect) (.tag field values value)
        (escapeTagValue v ++ t) =
      QuerySyntax.readLeaf (leafMachine server.dialect) (.tag field values (value ++ v)) t := by
  rw [escapeTagValue_eq]
  refine readLeaf_tagValue (fun c hc ↦ ?_) (forall_mem_of_all (by decide)) values value v t
  rw [of_decide_eq_true hc]
  rfl

/-- Tags with bars between them. -/
theorem readLeaf_tags (values : List Text) (value : Text) (v : Text) (vs : List Text) :
    QuerySyntax.readLeaf (leafMachine server.dialect) (.tag field values value)
        ([' ', '|', ' '].intercalate ((v :: vs).map escapeTagValue) ++ ['\x7d']) =
      some (.tag field (values ++ trim (value ++ v) :: vs.map trim)) := by
  induction vs generalizing values value v with
  | nil =>
      rw [List.map_singleton, List.intercalate_singleton, readLeaf_escaped]
      rfl
  | cons v' vs ih =>
      have hbar : ∀ t, QuerySyntax.readLeaf (leafMachine server.dialect)
          (.tag field values (value ++ v)) (' ' :: '|' :: ' ' :: t) =
          QuerySyntax.readLeaf (leafMachine server.dialect)
            (.tag field (values ++ [trim (value ++ v)]) [' ']) t := by
        intro t
        show QuerySyntax.readLeaf (leafMachine server.dialect)
          (.tag field (values ++ [trim (value ++ v ++ [' '])]) [' ']) t = _
        rw [trim_append_blank rfl]
      rw [List.map_cons, List.map_cons, List.intercalate_cons_cons, List.append_assoc,
        List.append_assoc, readLeaf_escaped]
      show QuerySyntax.readLeaf (leafMachine server.dialect) (.tag field values (value ++ v))
        (' ' :: '|' :: ' ' :: ([' ', '|', ' '].intercalate ((v' :: vs).map escapeTagValue) ++
          ['\x7d'])) = _
      rw [hbar, ih, List.singleton_append, trim_cons_blank rfl, List.append_assoc,
        List.singleton_append]
      rfl

theorem readLeaf_tagText {name : String} (hname : PlainName name.toList) (v : Text)
    (vs : List Text) :
    QuerySyntax.readLeaf (leafMachine server.dialect) (leafMachine server.dialect).init
        (name.toList ++ ':' :: '\x7b' ::
          ([' ', '|', ' '].intercalate ((v :: vs).map escapeTagValue) ++ ['\x7d'])) =
      some (.tag name.toList ((v :: vs).map trim)) := by
  show QuerySyntax.readLeaf (leafMachine server.dialect) (.field []) _ = _
  rw [readLeaf_field hname]
  show QuerySyntax.readLeaf (leafMachine server.dialect) (.tag name.toList [] []) _ = _
  exact readLeaf_tags [] [] v vs

end ReadBack

end VectorDbBenchmark.Valkey
