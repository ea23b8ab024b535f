import VectorDbBenchmark.F64
import VectorDbBenchmark.Kit.Text

/-!
# Query text with parameters

A RediSearch filter is text in which `$name` stands for a bound parameter.  The builder's
`format!` strings are kept as pieces, so that the references the builder writes are told
apart from a field name that happens to look like one; `Query.text` is the string
that is sent, and `textNames` are the names that a reader of that string finds in it.  A
parameter map is an association list without repeated names.  The intervals of one range
leaf are those of `redis_numeric_range.rs`.
-/

namespace VectorDbBenchmark.Redis

open Kit

/-- A value bound in `PARAMS`. -/
inductive FilterParamValue where
  | str (s : String)
  | int (i : ℤ)
  | float (f : F64)
deriving DecidableEq, Repr

/-- A piece of a query: literal text, or a reference `$name`. -/
inductive Piece where
  | lit (s : String)
  | ref (name : String)
deriving DecidableEq, Repr

def Piece.text : Piece → Text
  | lit s => s.toList
  | ref name => '$' :: name.toList

abbrev Query := List Piece

namespace Query

/-- The string that is sent. -/
def text (q : Query) : Text := q.flatMap Piece.text

/-- The names referred to. -/
def refs (q : Query) : List String :=
  q.filterMap fun
    | .ref name => some name
    | .lit _ => none

/-- `clauses.join(sep)`. -/
def join (sep : String) (clauses : List Query) : Query := [Piece.lit sep].intercalate clauses

@[simp] theorem text_nil : text [] = [] := rfl

@[simp] theorem text_cons (p : Piece) (q : Query) : text (p :: q) = p.text ++ text q := rfl

@[simp] theorem text_append (q q' : Query) : text (q ++ q') = text q ++ text q' :=
  List.flatMap_append

@[simp] theorem refs_nil : refs [] = [] := rfl

@[simp] theorem refs_lit (s : String) (q : Query) : refs (.lit s :: q) = refs q := rfl

@[simp] theorem refs_ref (name : String) (q : Query) : refs (.ref name :: q) = name :: refs q := rfl

@[simp] theorem refs_append (q q' : Query) : refs (q ++ q') = refs q ++ refs q' :=
  List.filterMap_append

@[simp] theorem join_nil (sep : String) : join sep [] = [] := rfl

@[simp] theorem join_singleton (sep : String) (q : Query) : join sep [q] = q := by
  simp [join, List.intercalate]

theorem join_cons_cons (sep : String) (q q' : Query) (qs : List Query) :
    join sep (q :: q' :: qs) = q ++ .lit sep :: join sep (q' :: qs) := by
  simp [join, List.intercalate]

/-- Joining adds no reference. -/
theorem refs_join (sep : String) (qs : List Query) : (join sep qs).refs = qs.flatMap refs := by
  induction qs with
  | nil => rfl
  | cons q qs ih =>
      cases qs with
      | nil => rw [join_singleton, List.flatMap_singleton]
      | cons q' qs =>
          rw [join_cons_cons, refs_append, refs_lit, ih]
          rfl

end Query

/-! ## Names in the text -/

/-- What a parameter name is made of: no ASCII punctuation but `_`, no blank and no control. -/
def isNameChar (c : Char) : Bool := c.isAlphanum || c = '_' || 0x80 ≤ c.toNat

def IsName (name : String) : Prop := name.toList ≠ [] ∧ ∀ c ∈ name.toList, isNameChar c = true

/-- The `$name`s of a text: each name is as long as it can be. -/
def textNames : Text → List String
  | [] => []
  | c :: t =>
    match decide (c = '$'), t.takeWhile isNameChar with
    | true, n :: ns => String.ofList (n :: ns) :: textNames t
    | _, _ => textNames t

/-- What follows does not go on with a name. -/
def Stops (t : Text) : Prop := ∀ c ∈ t.head?, isNameChar c = false

theorem stops_nil : Stops [] := fun _ h ↦ nomatch h

theorem stops_cons {c : Char} (h : isNameChar c = false) (t : Text) : Stops (c :: t) := by
  intro d hd
  cases hd
  exact h

theorem takeWhile_append_stops {s t : Text} (h : ∀ c ∈ s, isNameChar c = true) (ht : Stops t) :
    (s ++ t).takeWhile isNameChar = s := by
  rw [List.takeWhile_append_of_pos h]
  cases t with
  | nil => exact List.append_nil s
  | cons c t => rw [List.takeWhile_cons_of_neg (by simp [ht c rfl]), List.append_nil]

/-- Text without `$` has no names. -/
theorem textNames_append_of_notMem {s : Text} (h : '$' ∉ s) (t : Text) :
    textNames (s ++ t) = textNames t := by
  induction s with
  | nil => rfl
  | cons c s ih =>
      obtain ⟨hc, hs⟩ := not_or.mp (mt List.mem_cons.mpr h)
      rw [List.cons_append, textNames, decide_eq_false (Ne.symm hc)]
      exact ih hs

/-- The characters of a name are no `$`. -/
theorem dollar_notMem {s : Text} (h : ∀ c ∈ s, isNameChar c = true) : '$' ∉ s := fun hmem ↦
  absurd (h '$' hmem) (by decide)

theorem textNames_ref {name : String} (h : IsName name) {t : Text} (ht : Stops t) :
    textNames ('$' :: name.toList ++ t) = name :: textNames t := by
  obtain ⟨n, ns, hname⟩ := List.exists_cons_of_ne_nil h.1
  have hlist : String.ofList (n :: ns) = name := by rw [← hname, String.ofList_toList]
  rw [List.cons_append, textNames, takeWhile_append_stops h.2 ht,
    textNames_append_of_notMem (dollar_notMem h.2), hname, decide_eq_true rfl]
  exact congrArg (· :: textNames t) hlist

/-- The names of a text are made of the characters of names. -/
theorem isNameChar_of_mem_textNames {name : String} {t : Text} (h : name ∈ textNames t) :
    ∀ c ∈ name.toList, isNameChar c = true := by
  induction t with
  | nil => exact absurd h List.not_mem_nil
  | cons d t ih =>
      rw [textNames] at h
      split at h
      · next n ns _ htake =>
          rcases List.mem_cons.mp h with rfl | h
          · rw [String.toList_ofList, ← htake]
            exact List.all_eq_true.mp List.all_takeWhile
          · exact ih h
      · exact ih h

/-- A literal that no name goes on with and that starts none. -/
def closes (s : String) : Bool :=
  (s.toList.head?.any fun c ↦ !isNameChar c) && s.toList.all fun c ↦ c ≠ '$'

theorem notMem_of_closes {s : String} (h : closes s = true) : '$' ∉ s.toList := fun hmem ↦
  absurd rfl (of_decide_eq_true (List.all_eq_true.mp (Bool.and_eq_true_iff.mp h).2 '$' hmem))

theorem stops_of_closes {s : String} (h : closes s = true) (t : Text) : Stops (s.toList ++ t) := by
  obtain ⟨c, hc, hname⟩ := (Option.any_eq_true _ _).mp (Bool.and_eq_true_iff.mp h).1
  obtain ⟨tail, htail⟩ := List.head?_eq_some_iff.mp hc
  rw [htail]
  exact stops_cons (by simpa using hname) _

namespace Query

/-- Read as text, whatever follows, the query has the names that the builder wrote. -/
def Shows (q : Query) : Prop := ∀ t, Stops t → textNames (q.text ++ t) = q.refs ++ textNames t

theorem Shows.textNames {q : Query} (h : q.Shows) : textNames q.text = q.refs := by
  have hq := h [] stops_nil
  rwa [List.append_nil, Redis.textNames, List.append_nil] at hq

theorem shows_nil : Shows [] := fun _ _ ↦ rfl

theorem Shows.lit {q : Query} (h : q.Shows) {s : String} (hs : '$' ∉ s.toList) :
    Shows (.lit s :: q) := by
  intro t ht
  rw [text_cons, Piece.text, List.append_assoc, textNames_append_of_notMem hs, h t ht, refs_lit]

theorem shows_ref {name : String} (h : IsName name) : Shows [.ref name] := by
  intro t ht
  rw [text_cons, text_nil, List.append_nil, Piece.text, textNames_ref h ht]
  rfl

/-- One query after another, with a literal between that ends the last name. -/
theorem Shows.append {q q' : Query} (h : q.Shows) {s : String} (hs : closes s = true)
    (h' : q'.Shows) : Shows (q ++ .lit s :: q') := by
  intro t ht
  have hrest := h'.lit (notMem_of_closes hs)
  rw [text_append, List.append_assoc, h _ ?_, hrest t ht, refs_append, List.append_assoc]
  rw [text_cons, Piece.text, List.append_assoc]
  exact stops_of_closes hs _

/-- Joined by a separator that ends names. -/
theorem shows_join {sep : String} (hsep : closes sep = true) {qs : List Query}
    (h : ∀ q ∈ qs, q.Shows) : (join sep qs).Shows := by
  induction qs with
  | nil => exact shows_nil
  | cons q qs ih =>
      obtain ⟨hq, hqs⟩ := List.forall_mem_cons.mp h
      cases qs with
      | nil => rwa [join_singleton]
      | cons q' qs =>
          rw [join_cons_cons]
          exact hq.append hsep (ih hqs)

end Query

/-! ## Parameter maps -/

/-- `HashMap<String, FilterParamValue>`. -/
abbrev Params := List (String × FilterParamValue)

namespace Params

def names (ps : Params) : List String := ps.map Prod.fst

/-- `params.get(name)`. -/
def get (name : String) : Params → Option FilterParamValue
  | [] => none
  | (n, v) :: ps => if n = name then some v else get name ps

/-- `params.insert(name, value)`, which replaces the value of a name that is there. -/
def insert (ps : Params) (name : String) (value : FilterParamValue) : Params :=
  ps.filter (fun e ↦ e.1 ≠ name) ++ [(name, value)]

/-- `params.extend(other)`. -/
def extend (ps other : Params) : Params := other.foldl (fun ps e ↦ ps.insert e.1 e.2) ps

variable {ps qs : Params}

theorem insert_of_not_mem {name : String} (h : name ∉ ps.names) (value : FilterParamValue) :
    ps.insert name value = ps ++ [(name, value)] := by
  rw [insert, List.filter_eq_self.mpr]
  intro e he
  rw [decide_eq_true_eq]
  rintro rfl
  exact h (List.mem_map_of_mem he)

/-- Merging maps without a common name overwrites nothing. -/
theorem extend_of_nodup (h : (ps ++ qs).names.Nodup) : ps.extend qs = ps ++ qs := by
  induction qs generalizing ps with
  | nil => exact (List.append_nil ps).symm
  | cons e qs ih =>
      have hsplit : ps ++ e :: qs = (ps ++ [e]) ++ qs := by
        rw [List.append_assoc, List.singleton_append]
      rw [hsplit] at h ⊢
      have hnot : e.1 ∉ ps.names := by
        rw [names, List.map_append, List.nodup_append] at h
        have hps := h.1
        rw [List.map_append, List.nodup_append] at hps
        exact fun hmem ↦ hps.2.2 _ hmem _ (List.mem_singleton_self _) rfl
      show (ps.insert e.1 e.2).extend qs = _
      rw [insert_of_not_mem hnot]
      exact ih h

theorem get_of_mem (h : ps.names.Nodup) {name : String} {value : FilterParamValue}
    (hmem : (name, value) ∈ ps) : ps.get name = some value := by
  induction ps with
  | nil => exact absurd hmem List.not_mem_nil
  | cons e ps ih =>
      obtain ⟨n, v⟩ := e
      rw [names, List.map_cons, List.nodup_cons] at h
      rcases List.mem_cons.mp hmem with heq | hmem
      · cases heq
        exact if_pos rfl
      · have hne : n ≠ name := by
          rintro rfl
          exact h.1 (List.mem_map.mpr ⟨_, hmem, rfl⟩)
        rw [get, if_neg hne]
        exact ih h.2 hmem

end Params

/-- A prefilter and the parameters it is sent with. -/
abbrev ParsedFilter := Query × Params

/-! ## Numeric ranges -/

inductive Operator where
  | lt
  | gt
  | lte
  | gte
deriving DecidableEq, Repr

/-- An already converted bound; `parameter` is its name without `$`. -/
structure Bound where
  parameter : String
  operator : Operator
deriving DecidableEq, Repr

namespace Bound

/-- The bound as the left end of an interval. -/
def lower (b : Bound) : Option Query :=
  match b.operator with
  | .gt => some [.lit "(", .ref b.parameter]
  | .gte => some [.ref b.parameter]
  | .lt | .lte => none

/-- The bound as the right end of an interval. -/
def upper (b : Bound) : Option Query :=
  match b.operator with
  | .lt => some [.lit "(", .ref b.parameter]
  | .lte => some [.ref b.parameter]
  | .gt | .gte => none

end Bound

/-- The ends on one side of the leaf, `inf` when it has none there. -/
def endsOr (inf : String) (ends : List Query) : List Query :=
  if ends.isEmpty then [[.lit inf]] else ends

def interval (field : String) (lo hi : Query) : Query :=
  [.lit "@", .lit field, .lit ":["] ++ lo ++ [.lit " "] ++ hi ++ [.lit "]"]

/-- One interval for each pairing of a lower and an upper bound; no expression without a
bound. -/
def render (field : String) (bounds : List Bound) : Option Query :=
  if bounds.isEmpty then none
  else
    let lower := endsOr "-inf" (bounds.filterMap Bound.lower)
    let upper := endsOr "+inf" (bounds.filterMap Bound.upper)
    some (.join " " (lower.flatMap fun lo ↦ upper.map fun hi ↦ interval field lo hi))

end VectorDbBenchmark.Redis
