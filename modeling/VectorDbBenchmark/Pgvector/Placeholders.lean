import VectorDbBenchmark.Pgvector.Template

/-!
# Placeholders and values

The placeholders that a template shows outside quoted identifiers and literals, against the
values that are bound with it.
-/

namespace VectorDbBenchmark.Pgvector

open Kit Redis ConditionTree GroupBuilder Numbering
open Json (isNumber)

/-! ## Scanning -/

/-- The numbers of the placeholders, for the quote that is open at the start. -/
def placeholdersFrom : Option Char → Text → List ℕ
  | _, [] => []
  | some q, c :: t => placeholdersFrom (if c = q then none else some q) t
  | none, c :: t =>
    if c = '"' || c = '\'' then placeholdersFrom (some c) t
    else if c = '$' && t.head?.any Char.isDigit then
      Nat.ofDigitChars 10 (t.takeWhile Char.isDigit) 0 :: placeholdersFrom none t
    else placeholdersFrom none t

theorem placeholdersFrom_inside (q c : Char) (t : Text) :
    placeholdersFrom (some q) (c :: t) = placeholdersFrom (if c = q then none else some q) t := rfl

theorem placeholdersFrom_outside (c : Char) (t : Text) :
    placeholdersFrom none (c :: t) =
      if c = '"' || c = '\'' then placeholdersFrom (some c) t
      else if c = '$' && t.head?.any Char.isDigit then
        Nat.ofDigitChars 10 (t.takeWhile Char.isDigit) 0 :: placeholdersFrom none t
      else placeholdersFrom none t := rfl

/-- The numbers of the placeholders of a template, from left to right. -/
def placeholders (template : Text) : List ℕ := placeholdersFrom none template

/-- Whether a text closes the quotes it opens and shows no placeholder outside of them. -/
def inertFrom : Option Char → Text → Bool
  | none, [] => true
  | some _, [] => false
  | some q, c :: t => inertFrom (if c = q then none else some q) t
  | none, c :: t =>
    if c = '"' || c = '\'' then inertFrom (some c) t
    else !(c = '$' && (t.isEmpty || t.head?.any Char.isDigit)) && inertFrom none t

def inert (t : Text) : Bool := inertFrom none t

theorem placeholdersFrom_of_inertFrom {q : Option Char} {t : Text} (h : inertFrom q t = true)
    (u : Text) : placeholdersFrom q (t ++ u) = placeholdersFrom none u := by
  induction t generalizing q with
  | nil =>
      cases q with
      | none => rfl
      | some q => cases h
  | cons c t ih =>
      cases q with
      | some q =>
          rw [inertFrom] at h
          rw [List.cons_append, placeholdersFrom_inside]
          exact ih h
      | none =>
          rw [inertFrom] at h
          rw [List.cons_append, placeholdersFrom_outside]
          split_ifs at h ⊢ with hquote hdollar
          · exact ih h
          · cases t with
            | nil => simp_all
            | cons d t => simp_all
          · rw [Bool.and_eq_true] at h
            exact ih h.2

/-- A text that shows nothing, whatever stands behind it. -/
def Inert (t : Text) : Prop := ∀ u, placeholdersFrom none (t ++ u) = placeholdersFrom none u

theorem Inert.of_inert {t : Text} (h : inert t = true) : Inert t :=
  placeholdersFrom_of_inertFrom h

theorem Inert.append {t u : Text} (ht : Inert t) (hu : Inert u) : Inert (t ++ u) := by
  intro v
  rw [List.append_assoc, ht, hu]

/-- A text shows some placeholders, when no digit stands behind it. -/
def Shows (t : Text) (ps : List ℕ) : Prop :=
  ∀ u : Text, u.head?.any Char.isDigit = false →
    placeholdersFrom none (t ++ u) = ps ++ placeholdersFrom none u

theorem Inert.shows {t : Text} (h : Inert t) : Shows t [] := fun u _ ↦ h u

theorem Inert.append_shows {t u : Text} {ps : List ℕ} (ht : Inert t) (hu : Shows u ps) :
    Shows (t ++ u) ps := by
  intro v hv
  rw [List.append_assoc, ht, hu v hv]

theorem Shows.append {t u : Text} {ps qs : List ℕ} (ht : Shows t ps) (hu : Shows u qs)
    (hhead : u.head?.any Char.isDigit = false) : Shows (t ++ u) (ps ++ qs) := by
  intro v hv
  rw [List.append_assoc, ht _ ?_, hu v hv, List.append_assoc]
  cases u with
  | nil => exact hv
  | cons c u => exact hhead

theorem Shows.append_inert {t u : Text} {ps : List ℕ} (ht : Shows t ps) (hu : Inert u)
    (hhead : u.head?.any Char.isDigit = false) : Shows (t ++ u) ps := by
  have h := ht.append hu.shows hhead
  rwa [List.append_nil] at h

theorem Shows.placeholders_eq {t : Text} {ps : List ℕ} (h : Shows t ps) : placeholders t = ps := by
  have hnil := h [] rfl
  rw [List.append_nil] at hnil
  exact hnil.trans (List.append_nil ps)

/-! ### Texts -/

/-- A character that neither opens a quote nor starts a placeholder. -/
def isPlain (c : Char) : Bool := c ≠ '"' && c ≠ '\'' && c ≠ '$'

theorem inert_of_plain {t : Text} (h : t.all isPlain = true) : Inert t := by
  induction t with
  | nil => exact fun u ↦ rfl
  | cons c t ih =>
      rw [List.all_cons, Bool.and_eq_true, isPlain, Bool.and_eq_true, Bool.and_eq_true] at h
      simp only [decide_eq_true_eq, ne_eq] at h
      obtain ⟨⟨⟨hdouble, hsingle⟩, hdollar⟩, ht⟩ := h
      intro u
      rw [List.cons_append, placeholdersFrom_outside, if_neg (by simp [hdouble, hsingle]),
        if_neg (by simp [hdollar])]
      exact ih ht u

theorem isPlain_of_isDigit {c : Char} (h : c.isDigit = true) : isPlain c = true := by
  by_contra hc
  rw [isPlain, Bool.and_eq_true, Bool.and_eq_true] at hc
  simp only [decide_eq_true_eq, ne_eq] at hc
  obtain rfl | rfl | rfl : c = '"' ∨ c = '\'' ∨ c = '$' := by tauto
  all_goals exact absurd h (by decide)

theorem shows_placeholder (n : ℕ) : Shows (placeholder n) [n] := by
  intro u hu
  have hdigits : ∀ c ∈ digitText n, c.isDigit = true := fun c hc ↦ isDigit_of_mem_digitText hc
  have hinert : Inert (digitText n) :=
    inert_of_plain (List.all_eq_true.mpr fun c hc ↦ isPlain_of_isDigit (hdigits c hc))
  have htake : (digitText n ++ u).takeWhile Char.isDigit = digitText n := by
    rw [List.takeWhile_append_of_pos hdigits]
    cases u with
    | nil => exact List.append_nil _
    | cons c u =>
        rw [List.takeWhile_cons_of_neg, List.append_nil]
        simpa using hu
  have hhead : (digitText n ++ u).head?.any Char.isDigit = true := by
    cases hd : digitText n with
    | nil => exact absurd hd (digitText_ne_nil n)
    | cons c t => exact hdigits c (hd ▸ List.mem_cons_self)
  rw [placeholder, List.cons_append, placeholdersFrom_outside, if_neg (by decide), hhead,
    if_pos (by decide), htake, ofDigitChars_digitText, hinert]
  rfl

theorem placeholdersFrom_quoted {q : Char} {t : Text} (h : q ∉ t) (u : Text) :
    placeholdersFrom (some q) (t ++ q :: u) = placeholdersFrom none u := by
  induction t with
  | nil => rw [List.nil_append, placeholdersFrom_inside, if_pos rfl]
  | cons c t ih =>
      rw [List.mem_cons, not_or] at h
      rw [List.cons_append, placeholdersFrom_inside, if_neg (Ne.symm h.1), ih h.2]

theorem inert_columnText {field : String} (h : '"' ∉ field.toList) : Inert (columnText field) := by
  intro u
  rw [columnText, List.cons_append, List.append_assoc, placeholdersFrom_outside,
    if_pos (by decide)]
  exact placeholdersFrom_quoted h u

/-- A doubled quote closes a literal and opens the next. -/
theorem placeholdersFrom_doubled (t u : Text) :
    placeholdersFrom (some '\'') (replaceChar '\'' ['\'', '\''] t ++ '\'' :: u) =
      placeholdersFrom none u := by
  induction t with
  | nil => exact placeholdersFrom_quoted List.not_mem_nil u
  | cons c t ih =>
      rw [replaceChar, List.flatMap_cons, List.append_assoc, ← replaceChar]
      split_ifs with hc
      · rw [List.cons_append, List.singleton_append, placeholdersFrom_inside, if_pos rfl,
          placeholdersFrom_outside, if_pos (by decide)]
        exact ih
      · rw [List.singleton_append, placeholdersFrom_inside, if_neg hc]
        exact ih

theorem inert_timestampText (s : String) : Inert (timestampText s) := by
  intro u
  have hcast : Inert "::timestamptz".toList := inert_of_plain (by decide)
  rw [timestampText, List.cons_append, List.append_assoc, placeholdersFrom_outside,
    if_pos (by decide), List.cons_append, placeholdersFrom_doubled, hcast]

theorem inert_display (f : F64) : Inert f.display := by
  refine inert_of_plain (List.all_eq_true.mpr fun c hc ↦ ?_)
  cases f with
  | fin q =>
      by_contra h
      rw [isPlain, Bool.and_eq_true, Bool.and_eq_true] at h
      simp only [decide_eq_true_eq, ne_eq] at h
      obtain rfl | rfl | rfl : c = '"' ∨ c = '\'' ∨ c = '$' := by tauto
      all_goals exact F64.notMem_display (by decide) hc
  | _ => exact List.all_eq_true.mp (by decide) c hc

theorem shows_intercalate {sep : Text} (hsep : Inert sep)
    (hhead : sep.head?.any (fun c ↦ !c.isDigit) = true) {ts : List Text} {shown : List (List ℕ)}
    (h : List.Forall₂ Shows ts shown) : Shows (sep.intercalate ts) shown.flatten := by
  induction h with
  | nil => exact Inert.shows fun u ↦ rfl
  | cons ht hts ih =>
      rw [List.flatten_cons]
      cases hts with
      | nil =>
          rw [List.intercalate_singleton, List.flatten_nil, List.append_nil]
          exact ht
      | cons ht' hts' =>
          rw [List.intercalate_cons_cons, List.append_assoc]
          refine ht.append (hsep.append_shows ih) ?_
          cases sep with
          | nil => cases hhead
          | cons c sep => exact Bool.not_eq_true' _ ▸ hhead

/-! ## Leaves -/

section Leaves

variable (jsonText : Json → Text)

/-- The bounds of a range that stand in the template as their JSON texts are inert. -/
def inertBound (val : Json) : Bool :=
  match scalarValue val with
  | some (.bool _) => inert (jsonText val)
  | some _ => true
  | none => isNull val || inert (jsonText val)

def inertCondition (conditionType : String) (criteria : Json) : Bool :=
  if conditionType = "range" then
    (criteria.asObject.getD []).all fun e ↦ (sqlOp e.1).isNone || inertBound jsonText e.2
  else true

def bindsMatch (criteria : Json) : Bool :=
  match (criteria.get "any").bind Json.asArray with
  | some any => (!any.isEmpty && any.all isNumber) || any.any fun v ↦ v.asStr.isSome
  | none =>
    match criteria.get "value" with
    | some value => (scalarValue value).isSome
    | none => ((criteria.get "text").bind Json.asStr).isSome

/-- Whether a condition binds a value. -/
def binds (conditionType : String) (criteria : Json) : Bool :=
  match conditionType with
  | "match" => bindsMatch criteria
  | "range" => (criteria.asObject.getD []).any fun e ↦ (sqlOp e.1).isSome && isNumber e.2
  | _ => false

/-- Whether a value is bound before the first field without an object. -/
def bindsBefore : List (String × Json) → Bool
  | [] => false
  | (_, fieldFilters) :: es =>
    match fieldFilters.asObject with
    | none => false
    | some ops => ops.any (fun e ↦ binds e.1 e.2) || bindsBefore es

/-- Whether the values that are bound for an entry are used: no field behind one that binds a
value is without an object. -/
def keepsValues (obj : List (String × Json)) : Bool :=
  fieldsAreObjects obj || !bindsBefore obj

def plainNames (obj : List (String × Json)) : Bool := obj.all fun e ↦ !e.1.toList.contains '"'

def inertBounds (obj : List (String × Json)) : Bool :=
  obj.all fun e ↦ (e.2.asObject.getD []).all fun c ↦ inertCondition jsonText c.1 c.2

end Leaves

/-- What a computation shows of the values that it binds: all of them, in order. -/
def ShowsAll (x : FilterBuilder (List Text)) : Prop :=
  ∀ n, ∃ shown, List.Forall₂ Shows (x n).1 shown ∧ shown.flatten = List.range' n (x n).2.length

theorem showsAll_nil : ShowsAll (pure []) := fun _ ↦ ⟨[], .nil, rfl⟩

theorem showsAll_pure {t : Text} (h : Shows t []) : ShowsAll (pure [t]) :=
  fun _ ↦ ⟨[[]], .cons h .nil, rfl⟩

theorem showsAll_bindValue (v : PgValue) {f : Text → Text}
    (hf : ∀ n, Shows (f (placeholder n)) [n]) : ShowsAll (do
      let ph ← bindValue v
      pure [f ph]) :=
  fun n ↦ ⟨[[n]], .cons (hf n) .nil, rfl⟩

theorem ShowsAll.append {x y : FilterBuilder (List Text)} (hx : ShowsAll x) (hy : ShowsAll y) :
    ShowsAll (do
      let cs ← x
      let ds ← y
      pure (cs ++ ds)) := by
  intro n
  obtain ⟨shown, hshown, hflat⟩ := hx n
  obtain ⟨shown', hshown', hflat'⟩ := hy (n + (x n).2.length)
  refine ⟨shown ++ shown', List.rel_append hshown hshown', ?_⟩
  rw [List.flatten_append, hflat, hflat', List.range'_append_1]
  simp only [bind_apply, pure_apply, List.append_nil, List.length_append]

theorem ShowsAll.cons {x : FilterBuilder Text} {y : FilterBuilder (List Text)}
    (hx : ShowsAll (do
      let c ← x
      pure [c])) (hy : ShowsAll y) : ShowsAll (do
      let c ← x
      let cs ← y
      pure (c :: cs)) := by
  intro n
  obtain ⟨shown, hshown, hflat⟩ := hx n
  obtain ⟨shown', hshown', hflat'⟩ := hy (n + (x n).2.length)
  refine ⟨shown ++ shown', List.rel_append hshown hshown', ?_⟩
  rw [List.flatten_append, hflat, hflat']
  simp only [bind_apply, pure_apply, List.append_nil, List.length_append, List.range'_append_1]

section Clauses

variable {field : String}

theorem inert_sqlOp {key op : String} (h : sqlOp key = some op) : Inert op.toList := by
  unfold sqlOp at h
  split at h <;> cases h <;> exact inert_of_plain (by decide)

theorem shows_binaryText (hfield : '"' ∉ field.toList) {op : String} (hop : Inert op.toList)
    {operand : Text} {ps : List ℕ} (h : Shows operand ps) :
    Shows (binaryText field op operand) ps := by
  have hblank : Inert [' '] := inert_of_plain (by decide)
  exact (inert_columnText hfield).append_shows
    (hblank.append_shows (hop.append_shows (hblank.append_shows h)))

theorem inert_splitText (hfield : '"' ∉ field.toList) : Inert (splitText field) := by
  have hopen : Inert "string_to_array(".toList := inert_of_plain (by decide)
  have hclose : Inert ", ';')".toList := .of_inert (by decide)
  exact (hopen.append (inert_columnText hfield)).append hclose

theorem shows_anyText (hfield : '"' ∉ field.toList) {type : String} (htype : Inert type.toList)
    {ph : Text} {ps : List ℕ} (h : Shows ph ps) : Shows (anyText field type ph) ps := by
  have hopen : Inert " = ANY(".toList := inert_of_plain (by decide)
  have hclose : Inert "[])".toList := inert_of_plain (by decide)
  have hcast : Inert "::".toList := inert_of_plain (by decide)
  have htail := (hcast.append htype).append hclose
  have hshows := (((inert_columnText hfield).append hopen).append_shows h).append_inert htail rfl
  rw [anyText]
  simpa only [List.append_assoc] using hshows

theorem showsAll_matchAny (hfield : '"' ∉ field.toList) (any : List Json) :
    ShowsAll (do
      let clause ← buildMatchAny field any
      pure [clause]) := by
  have hbound : ∀ (v : PgValue) (f : Text → Text), (∀ n, Shows (f (placeholder n)) [n]) →
      ShowsAll (do
        let clause ← (do
          let ph ← bindValue v
          pure (f ph) : FilterBuilder Text)
        pure [clause]) :=
    fun v f hf n ↦ ⟨[[n]], .cons (hf n) .nil, rfl⟩
  rw [buildMatchAny]
  dsimp only
  split_ifs
  · exact hbound _ _ fun n ↦
      shows_anyText hfield (inert_of_plain (by decide)) (shows_placeholder n)
  · exact hbound _ _ fun n ↦
      shows_anyText hfield (inert_of_plain (by decide)) (shows_placeholder n)
  · exact showsAll_pure (inert_of_plain (by decide)).shows
  · have hand : Inert " && ".toList := inert_of_plain (by decide)
    have hcast : Inert "::text[]".toList := inert_of_plain (by decide)
    exact hbound _ _ fun n ↦
      (((inert_splitText hfield).append hand).append_shows (shows_placeholder n)).append_inert
        hcast rfl

theorem showsAll_matchValue (hfield : '"' ∉ field.toList) (value : Json) :
    ShowsAll (buildMatchValue field value) := by
  rw [buildMatchValue]
  cases scalarValue value with
  | none => exact showsAll_nil
  | some v =>
      dsimp only
      split_ifs
      · have hopen : Inert " = ANY(".toList := inert_of_plain (by decide)
        have hclose : Inert [')'] := inert_of_plain (by decide)
        refine showsAll_bindValue v fun n ↦ ?_
        refine Shows.append_inert ?_ hclose rfl
        refine Shows.append_inert ?_ (inert_splitText hfield) rfl
        exact (shows_placeholder n).append_inert hopen rfl
      · exact showsAll_bindValue v fun n ↦ shows_binaryText hfield (inert_of_plain (by decide))
          (shows_placeholder n)

theorem showsAll_match (hfield : '"' ∉ field.toList) (criteria : Json) :
    ShowsAll (buildMatch field criteria) := by
  rw [buildMatch]
  split
  · exact showsAll_matchAny hfield _
  · split
    · exact showsAll_matchValue hfield _
    · split
      · exact showsAll_nil
      · have hopen : Inert "to_tsvector('english', ".toList := .of_inert (by decide)
        have hquery : Inert ") @@ plainto_tsquery('english', ".toList := .of_inert (by decide)
        have hclose : Inert [')'] := inert_of_plain (by decide)
        refine showsAll_bindValue _ fun n ↦ ?_
        exact (((hopen.append (inert_columnText hfield)).append hquery).append_shows
          (shows_placeholder n)).append_inert hclose rfl

variable {jsonText : Json → Text}

theorem showsAll_bound (hfield : '"' ∉ field.toList) {key op : String} (hop : sqlOp key = some op)
    {val : Json} (hval : inertBound jsonText val = true) (hnull : isNull val = false) :
    ShowsAll (do
      let clause ← buildBound jsonText field op val
      pure [clause]) := by
  have hshows : ∀ {operand ps}, Shows operand ps → Shows (binaryText field op operand) ps :=
    fun h ↦ shows_binaryText hfield (inert_sqlOp hop) h
  rw [inertBound] at hval
  rw [buildBound]
  cases hv : scalarValue val with
  | none =>
      rw [hv, hnull, Bool.false_or] at hval
      exact showsAll_pure (hshows (Inert.of_inert hval).shows)
  | some v =>
      rw [hv] at hval
      cases v with
      | text s => exact showsAll_pure (hshows (inert_timestampText s).shows)
      | bool b => exact showsAll_pure (hshows (Inert.of_inert hval).shows)
      | _ => exact showsAll_bindValue _ fun n ↦ hshows (shows_placeholder n)

theorem showsAll_bounds (hfield : '"' ∉ field.toList) {co : List (String × Json)}
    (hco : ∀ e ∈ co, ((sqlOp e.1).isNone || inertBound jsonText e.2) = true) :
    ShowsAll (buildBounds jsonText field co) := by
  induction co with
  | nil => exact showsAll_nil
  | cons e co ih =>
      obtain ⟨key, val⟩ := e
      rw [List.forall_mem_cons] at hco
      rw [buildBounds]
      cases hop : sqlOp key with
      | none => exact ih hco.2
      | some op =>
          dsimp only
          cases hnull : isNull val with
          | true => exact ih hco.2
          | false =>
              have hval : inertBound jsonText val = true := by
                have hval := hco.1
                rwa [hop] at hval
              exact (showsAll_bound hfield hop hval hnull).cons (ih hco.2)

theorem inert_geo (hfield : '"' ∉ field.toList) (criteria : Json) :
    ShowsAll (pure (buildGeo field criteria)) := by
  rw [buildGeo]
  split
  · next lat lon radius _ _ _ =>
      have hopen : Inert "earth_distance(ll_to_earth(split_part(".toList :=
        inert_of_plain (by decide)
      have hfirst : Inert ", ',', 1)::float8, split_part(".toList := .of_inert (by decide)
      have hsecond : Inert ", ',', 2)::float8), ll_to_earth(".toList := .of_inert (by decide)
      have hcomma : Inert ", ".toList := inert_of_plain (by decide)
      have hwithin : Inert ")) <= ".toList := inert_of_plain (by decide)
      have hcolumn := inert_columnText hfield
      refine showsAll_pure (Inert.shows ?_)
      exact hopen.append hcolumn |>.append hfirst |>.append hcolumn |>.append hsecond
        |>.append (inert_display lat) |>.append hcomma |>.append (inert_display lon)
        |>.append hwithin |>.append (inert_display radius)
  · exact showsAll_nil

theorem showsAll_condition (hfield : '"' ∉ field.toList) {conditionType : String} {criteria : Json}
    (h : inertCondition jsonText conditionType criteria = true) :
    ShowsAll (buildCondition jsonText field conditionType criteria) := by
  unfold buildCondition
  split
  · exact showsAll_match hfield criteria
  · rw [inertCondition, if_pos rfl] at h
    cases criteria with
    | object co => exact showsAll_bounds hfield (List.all_eq_true.mp h)
    | _ => exact showsAll_nil
  · exact inert_geo hfield criteria
  · exact showsAll_nil

theorem showsAll_conditions (hfield : '"' ∉ field.toList) {ops : List (String × Json)}
    (h : ∀ e ∈ ops, inertCondition jsonText e.1 e.2 = true) :
    ShowsAll (buildConditions jsonText field ops) := by
  induction ops with
  | nil => exact showsAll_nil
  | cons e ops ih =>
      rw [List.forall_mem_cons] at h
      exact (showsAll_condition hfield h.1).append (ih h.2)

end Clauses

/-! ### What is bound -/

section Bound

variable {field : String} {jsonText : Json → Text}

theorem isEmpty_append {α : Type} (xs ys : List α) :
    (xs ++ ys).isEmpty = (xs.isEmpty && ys.isEmpty) := by
  cases xs <;> rfl

theorem isEmpty_filterMap_asStr (any : List Json) :
    (any.filterMap Json.asStr).isEmpty = !any.any fun v ↦ v.asStr.isSome := by
  induction any with
  | nil => rfl
  | cons v any ih =>
      rw [List.filterMap_cons, List.any_cons]
      cases hv : v.asStr with
      | none => exact ih
      | some s => rfl

theorem isEmpty_matchAny (any : List Json) (n : ℕ) : (buildMatchAny field any n).2.isEmpty =
    !((!any.isEmpty && any.all isNumber) || any.any fun v ↦ v.asStr.isSome) := by
  rw [buildMatchAny]
  dsimp only
  by_cases hnumbers : (!any.isEmpty && any.all isNumber) = true
  · rw [if_pos hnumbers, hnumbers]
    split_ifs <;> rfl
  · rw [if_neg hnumbers, Bool.not_eq_true _ |>.mp hnumbers, Bool.false_or,
      ← isEmpty_filterMap_asStr]
    split_ifs with hstrings
    · exact hstrings.symm
    · exact (Bool.not_eq_true _ |>.mp hstrings).symm

theorem isEmpty_matchValue (value : Json) (n : ℕ) :
    (buildMatchValue field value n).2.isEmpty = !(scalarValue value).isSome := by
  rw [buildMatchValue]
  cases scalarValue value with
  | none => rfl
  | some v =>
      dsimp only
      split_ifs <;> rfl

theorem isEmpty_bound {op : String} {val : Json} (hnull : isNull val = false) (n : ℕ) :
    (buildBound jsonText field op val n).2.isEmpty = !isNumber val := by
  cases val with
  | number m =>
      obtain ⟨w, hw⟩ := exists_bound_number field jsonText op m
      rw [hw]
      rfl
  | null => cases hnull
  | _ => rfl

theorem isEmpty_bounds (co : List (String × Json)) (n : ℕ) :
    (buildBounds jsonText field co n).2.isEmpty =
      !co.any fun e ↦ (sqlOp e.1).isSome && isNumber e.2 := by
  induction co generalizing n with
  | nil => rfl
  | cons e co ih =>
      obtain ⟨key, val⟩ := e
      rw [buildBounds, List.any_cons]
      cases hop : sqlOp key with
      | none => exact ih n
      | some op =>
          dsimp only
          cases hnull : isNull val with
          | true =>
              have hval : isNumber val = false := by
                cases val <;> first | rfl | cases hnull
              rw [hval, Bool.and_false, Bool.false_or]
              exact ih n
          | false =>
              rw [if_neg Bool.false_ne_true]
              simp only [bind_apply, pure_apply, List.append_nil, isEmpty_append, ih,
                isEmpty_bound hnull, Option.isSome_some, Bool.true_and, Bool.not_or]

theorem isEmpty_match (criteria : Json) (n : ℕ) :
    (buildMatch field criteria n).2.isEmpty = !bindsMatch criteria := by
  rw [buildMatch, bindsMatch]
  cases (criteria.get "any").bind Json.asArray with
  | some any =>
      dsimp only
      rw [← @isEmpty_matchAny field any n]
      simp only [bind_apply, pure_apply, List.append_nil]
  | none =>
      dsimp only
      cases criteria.get "value" with
      | some value => exact isEmpty_matchValue value n
      | none =>
          dsimp only
          cases (criteria.get "text").bind Json.asStr with
          | none => rfl
          | some text => rfl

theorem isEmpty_condition (conditionType : String) (criteria : Json) (n : ℕ) :
    (buildCondition jsonText field conditionType criteria n).2.isEmpty =
      !binds conditionType criteria := by
  by_cases hmatch : conditionType = "match"
  · subst hmatch
    exact isEmpty_match criteria n
  · by_cases hrange : conditionType = "range"
    · subst hrange
      cases criteria with
      | object co => exact isEmpty_bounds co n
      | _ => rfl
    · have hbinds : binds conditionType criteria = false := by
        unfold binds
        split
        · exact absurd rfl hmatch
        · exact absurd rfl hrange
        · rfl
      rw [hbinds]
      unfold buildCondition
      split
      · exact absurd rfl hmatch
      · exact absurd rfl hrange
      · rfl
      · rfl

theorem isEmpty_conditions (ops : List (String × Json)) (n : ℕ) :
    (buildConditions jsonText field ops n).2.isEmpty = !ops.any fun e ↦ binds e.1 e.2 := by
  induction ops generalizing n with
  | nil => rfl
  | cons e ops ih =>
      rw [buildConditions, List.any_cons]
      simp only [bind_apply, pure_apply, List.append_nil, isEmpty_append, ih,
        isEmpty_condition, Bool.not_or]

end Bound

/-! ### Entries -/

section Entries

variable {jsonText : Json → Text}

/-- Without an object on every field nothing is built, of whatever was bound. -/
theorem buildFields_of_not (obj : List (String × Json))
    (h : fieldsAreObjects obj = false) (n : ℕ) :
    (buildFields jsonText obj n).1 = none ∧
      (buildFields jsonText obj n).2.isEmpty = !bindsBefore obj := by
  induction obj generalizing n with
  | nil => cases h
  | cons e obj ih =>
      obtain ⟨field, filters⟩ := e
      rw [buildFields, bindsBefore]
      cases hobj : filters.asObject with
      | none => exact ⟨rfl, rfl⟩
      | some ops =>
          rw [fieldsAreObjects, List.all_cons, hobj, Option.isSome_some,
            Bool.true_and] at h
          dsimp only
          obtain ⟨hnone, hempty⟩ := ih h (n + (buildConditions jsonText field ops n).2.length)
          simp only [bind_apply, pure_apply, List.append_nil, hnone, Option.map_none,
            isEmpty_append, hempty, isEmpty_conditions, Bool.not_or, and_self]

theorem buildFields_of_objects (obj : List (String × Json))
    (h : fieldsAreObjects obj = true) (hnames : plainNames obj = true)
    (hinert : inertBounds jsonText obj = true) (n : ℕ) :
    ∃ parts shown, (buildFields jsonText obj n).1 = some parts ∧
      List.Forall₂ Shows parts shown ∧
      shown.flatten = List.range' n (buildFields jsonText obj n).2.length := by
  induction obj generalizing n with
  | nil => exact ⟨[], [], rfl, .nil, rfl⟩
  | cons e obj ih =>
      obtain ⟨field, filters⟩ := e
      rw [fieldsAreObjects, List.all_cons, Bool.and_eq_true] at h
      rw [plainNames, List.all_cons, Bool.and_eq_true] at hnames
      rw [inertBounds, List.all_cons, Bool.and_eq_true] at hinert
      obtain ⟨ops, hops⟩ := Option.isSome_iff_exists.mp h.1
      rw [hops, Option.getD_some] at hinert
      have hfield : '"' ∉ field.toList := by simpa using hnames.1
      obtain ⟨shown, hshown, hflat⟩ :=
        showsAll_conditions hfield (List.all_eq_true.mp hinert.1) n
      obtain ⟨parts, shown', hparts, hshown', hflat'⟩ := ih h.2 hnames.2 hinert.2
        (n + (buildConditions jsonText field ops n).2.length)
      rw [buildFields, hops]
      dsimp only
      refine ⟨(buildConditions jsonText field ops n).1 ++ parts, shown ++ shown', ?_,
        List.rel_append hshown hshown', ?_⟩
      · simp only [bind_apply, pure_apply, hparts, Option.map_some]
      · rw [List.flatten_append, hflat, hflat']
        simp only [bind_apply, pure_apply, List.append_nil, List.length_append,
          List.range'_append_1]

end Entries

/-! ## Groups -/

mutual

/-- Whether all entries of an entry that are no groups satisfy something. -/
def everyEntry (P : List (String × Json) → Bool) : Json → Bool
  | .object obj =>
    if containsKey "and" obj || containsKey "or" obj then
      everyAt P "and" obj && everyAt P "or" obj
    else P obj
  | _ => true

def everyIn (P : List (String × Json) → Bool) : List Json → Bool
  | [] => true
  | v :: vs => everyEntry P v && everyIn P vs

def everyAt (P : List (String × Json) → Bool) (key : String) : List (String × Json) → Bool
  | [] => true
  | (k, v) :: es => if k = key then everyArray P v else everyAt P key es

def everyArray (P : List (String × Json) → Bool) : Json → Bool
  | .array vs => everyIn P vs
  | _ => true

end

/-- Whether all entries of a conditions value that are no groups satisfy something. -/
def everyLeaf (P : List (String × Json) → Bool) (conditions : Json) : Bool :=
  match conditions.asObject with
  | some obj => everyAt P "and" obj && everyAt P "or" obj
  | none => true

/-- What a computation shows of the values that it binds: some of them, in order, and all of them
if and only if `keeps`. -/
def ShowsKept {α : Type} (texts : α → List Text) (x : FilterBuilder α) (keeps : Bool) : Prop :=
  ∀ n, ∃ shown, List.Forall₂ Shows (texts (x n).1) shown ∧
    shown.flatten.Sublist (List.range' n (x n).2.length) ∧
    (shown.flatten.length = (x n).2.length ↔ keeps = true)

section Groups

theorem ShowsKept.bind {α β γ : Type} {f : α → List Text} {g : β → List Text} {h : γ → List Text}
    {x : FilterBuilder α} {y : FilterBuilder β} {k k' : Bool} {join : α → β → γ}
    (hx : ShowsKept f x k) (hy : ShowsKept g y k')
    (hjoin : ∀ a b {shown shown' : List (List ℕ)}, List.Forall₂ Shows (f a) shown →
      List.Forall₂ Shows (g b) shown' → ∃ shown'', List.Forall₂ Shows (h (join a b)) shown'' ∧
        shown''.flatten = shown.flatten ++ shown'.flatten) :
    ShowsKept h (do
      let a ← x
      let b ← y
      pure (join a b)) (k && k') := by
  intro n
  obtain ⟨shown, hshown, hsub, hkeeps⟩ := hx n
  obtain ⟨shown', hshown', hsub', hkeeps'⟩ := hy (n + (x n).2.length)
  obtain ⟨shown'', hshown'', hflat⟩ := hjoin _ _ hshown hshown'
  have hle := hsub.length_le
  have hle' := hsub'.length_le
  rw [List.length_range'] at hle hle'
  refine ⟨shown'', hshown'', ?_, ?_⟩
  · rw [hflat]
    simp only [bind_apply, pure_apply, List.append_nil, List.length_append]
    rw [← List.range'_append_1]
    exact hsub.append hsub'
  · rw [hflat, Bool.and_eq_true, ← hkeeps, ← hkeeps']
    simp only [bind_apply, pure_apply, List.append_nil, List.length_append]
    omega

variable {shown shown' : List (List ℕ)}

theorem shows_armText {join : List Text → Text}
    (hjoin : ∀ {ts shown}, List.Forall₂ Shows ts shown → Shows (join ts) shown.flatten)
    {parts : Option (List Text)} (h : List.Forall₂ Shows (parts.getD []) shown) :
    ∃ shown', List.Forall₂ Shows (armText join parts) shown' ∧ shown'.flatten = shown.flatten := by
  cases parts with
  | none => exact ⟨shown, h, rfl⟩
  | some ts =>
      cases ts with
      | nil => exact ⟨shown, h, rfl⟩
      | cons t ts => exact ⟨[shown.flatten], .cons (hjoin h) .nil, List.append_nil _⟩

theorem shows_and {ts : List Text} (h : List.Forall₂ Shows ts shown) :
    Shows (" AND ".toList.intercalate ts) shown.flatten :=
  shows_intercalate (inert_of_plain (by decide)) (by decide) h

theorem shows_or {ts : List Text} (h : List.Forall₂ Shows ts shown) :
    Shows (" OR ".toList.intercalate ts) shown.flatten :=
  shows_intercalate (inert_of_plain (by decide)) (by decide) h

theorem Shows.parens {t : Text} {ps : List ℕ} (h : Shows t ps) :
    Shows ('(' :: (t ++ [')'])) ps := by
  have hopen : Inert ['('] := inert_of_plain (by decide)
  have hclose : Inert [')'] := inert_of_plain (by decide)
  exact hopen.append_shows (h.append_inert hclose rfl)

theorem shows_parensAnd {ts : List Text} (h : List.Forall₂ Shows ts shown) :
    Shows (parensAnd ts) shown.flatten :=
  (shows_and h).parens

theorem shows_parensOr {ts : List Text} (h : List.Forall₂ Shows ts shown) :
    Shows (parensOr ts) shown.flatten :=
  (shows_or h).parens

theorem shows_pgGroup {ands ors : Option (List Text)}
    (hands : List.Forall₂ Shows (ands.getD []) shown)
    (hors : List.Forall₂ Shows (ors.getD []) shown') :
    ∃ shown'', List.Forall₂ Shows (buildPgGroup ands ors).toList shown'' ∧
      shown''.flatten = shown.flatten ++ shown'.flatten := by
  obtain ⟨as, has, hasflat⟩ := shows_armText shows_parensAnd hands
  obtain ⟨os, hos, hosflat⟩ := shows_armText shows_parensOr hors
  have hparts : List.Forall₂ Shows (armText parensAnd ands ++ armText parensOr ors) (as ++ os) :=
    List.rel_append has hos
  have hflat : (as ++ os).flatten = shown.flatten ++ shown'.flatten := by
    rw [List.flatten_append, hasflat, hosflat]
  rw [buildPgGroup, groupText]
  split_ifs with hempty
  · rw [List.isEmpty_iff.mp hempty, List.forall₂_nil_left_iff] at hparts
    exact ⟨[], .nil, hparts ▸ hflat⟩
  · exact ⟨[(as ++ os).flatten], .cons (shows_and hparts) .nil,
      (List.append_nil _).trans hflat⟩

variable {jsonText : Json → Text}

variable (jsonText) in
/-- The names and the inlined bounds of an entry do not disturb the quotes of a template. Nothing
is inlined of an entry that has a field without an object. -/
def undisturbed (obj : List (String × Json)) : Bool :=
  plainNames obj && (!fieldsAreObjects obj || inertBounds jsonText obj)

theorem showsKept_leaf {obj : List (String × Json)} (h : undisturbed jsonText obj = true) :
    ShowsKept id ((pgBuilder jsonText).leaf obj) (keepsValues obj) := by
  intro n
  rw [undisturbed, Bool.and_eq_true] at h
  have hleaf : (pgBuilder jsonText).leaf obj n =
      (armText (" AND ".toList.intercalate) (buildFields jsonText obj n).1,
        (buildFields jsonText obj n).2) := Prod.ext rfl (List.append_nil _)
  rw [hleaf]
  cases hobjects : fieldsAreObjects obj with
  | true =>
      rw [hobjects, Bool.not_true, Bool.false_or] at h
      obtain ⟨parts, shown, hparts, hshown, hflat⟩ :=
        buildFields_of_objects obj hobjects h.1 h.2 n
      have hparts' : List.Forall₂ Shows ((buildFields jsonText obj n).1.getD []) shown := by
        rwa [hparts, Option.getD_some]
      obtain ⟨shown', hshown', hflat'⟩ := shows_armText shows_and hparts'
      refine ⟨shown', hshown', ?_, ?_⟩
      · rw [hflat', hflat]
      · rw [hflat', hflat, List.length_range', keepsValues, hobjects]
        exact iff_of_true rfl rfl
  | false =>
      obtain ⟨hnone, hempty⟩ := buildFields_of_not obj hobjects n
      refine ⟨[], hnone ▸ .nil, List.nil_sublist _, ?_⟩
      rw [keepsValues, hobjects, Bool.false_or, ← hempty, List.isEmpty_iff_length_eq_zero]
      exact eq_comm

theorem showsKept_nil {α : Type} {f : α → List Text} {a : α} (h : f a = []) :
    ShowsKept f (pure a) true :=
  fun _ ↦ ⟨[], h ▸ .nil, List.nil_sublist _, iff_of_true rfl rfl⟩

mutual

theorem showsKept_entry {v : Json} (h : everyEntry (undisturbed jsonText) v = true) :
    ShowsKept id ((pgBuilder jsonText).entry v) (everyEntry keepsValues v) := by
  match v with
  | .object obj =>
      rw [everyEntry] at h ⊢
      rw [GroupBuilder.entry]
      cases hgroup : containsKey "and" obj || containsKey "or" obj with
      | true =>
          have hisGroup : (pgBuilder jsonText).isGroup obj = true := hgroup
          rw [hgroup, if_pos rfl, Bool.and_eq_true] at h
          rw [hisGroup, if_pos rfl, if_pos rfl]
          refine (showsKept_arrayAt "and" h.1).bind
            (showsKept_arrayAt "or" h.2) fun _ _ _ _ ha ho ↦ ?_
          obtain ⟨shown, hshown, hflat⟩ := shows_pgGroup ha ho
          refine ⟨shown, ?_, hflat⟩
          rw [Option.toList_map]
          exact List.forall₂_map_left_iff.mpr (hshown.imp fun _ _ h ↦ h.parens)
      | false =>
          have hisGroup : (pgBuilder jsonText).isGroup obj = false := hgroup
          rw [hgroup, if_neg Bool.false_ne_true] at h
          rw [hisGroup, if_neg Bool.false_ne_true, if_neg Bool.false_ne_true]
          exact showsKept_leaf h
  | .null => exact showsKept_nil rfl
  | .bool _ => exact showsKept_nil rfl
  | .number _ => exact showsKept_nil rfl
  | .string _ => exact showsKept_nil rfl
  | .array _ => exact showsKept_nil rfl

theorem showsKept_entries {vs : List Json} (h : everyIn (undisturbed jsonText) vs = true) :
    ShowsKept id ((pgBuilder jsonText).entries vs) (everyIn keepsValues vs) := by
  match vs with
  | [] => exact showsKept_nil rfl
  | v :: vs =>
      rw [everyIn, Bool.and_eq_true] at h
      rw [everyIn, GroupBuilder.entries]
      refine (showsKept_entry h.1).bind (showsKept_entries h.2) fun _ _ _ _ ha hb ↦ ?_
      exact ⟨_, List.rel_append ha hb, List.flatten_append⟩

theorem showsKept_arrayAt (key : String) {obj : List (String × Json)}
    (h : everyAt (undisturbed jsonText) key obj = true) :
    ShowsKept (·.getD []) ((pgBuilder jsonText).arrayAt key obj) (everyAt keepsValues key obj) := by
  match obj with
  | [] => exact showsKept_nil rfl
  | (k, v) :: es =>
      rw [everyAt] at h ⊢
      rw [GroupBuilder.arrayAt]
      split_ifs at h ⊢
      · exact showsKept_array key h
      · exact showsKept_arrayAt key h

theorem showsKept_array (key : String) {v : Json}
    (h : everyArray (undisturbed jsonText) v = true) :
    ShowsKept (·.getD []) ((pgBuilder jsonText).array key v) (everyArray keepsValues v) := by
  match v with
  | .array vs =>
      rw [everyArray] at h ⊢
      rw [GroupBuilder.array]
      intro n
      obtain ⟨shown, hshown, hsub, hkeeps⟩ := showsKept_entries h n
      refine ⟨shown, hshown, ?_⟩
      simp only [pgBuilder, bind_apply, pure_apply, List.append_nil, List.nil_append,
        List.length_nil, Nat.add_zero]
      exact ⟨hsub, hkeeps⟩
  | .null => exact showsKept_nil rfl
  | .bool _ => exact showsKept_nil rfl
  | .number _ => exact showsKept_nil rfl
  | .string _ => exact showsKept_nil rfl
  | .object _ => exact showsKept_nil rfl

end

theorem showsKept_conditionsGroup {obj : List (String × Json)}
    (h : everyLeaf (undisturbed jsonText) (.object obj) = true) :
    ShowsKept Option.toList (conditionsGroup jsonText obj)
      (everyLeaf keepsValues (.object obj)) := by
  have h' : (everyAt (undisturbed jsonText) "and" obj &&
      everyAt (undisturbed jsonText) "or" obj) = true := h
  rw [Bool.and_eq_true] at h'
  exact (showsKept_arrayAt "and" h'.1).bind (showsKept_arrayAt "or" h'.2)
    fun _ _ _ _ ha ho ↦ shows_pgGroup ha ho

end Groups

/-- The placeholders of a template whose quotes are undisturbed are those of its values, once each
and in order, if and only if no value is bound for an entry that is then left out for a field
without an object. -/
theorem parsePgConditions_placeholders (jsonText : Json → Text) (conditions : Json) (n : ℕ)
    (h : everyLeaf (undisturbed jsonText) conditions = true) {template : Text}
    {values : List PgValue}
    (hbuilt : parsePgConditions jsonText conditions n = some (template, values)) :
    placeholders template = List.range' n values.length ↔
      everyLeaf keepsValues conditions = true := by
  obtain ⟨obj, rfl, hne⟩ : ∃ obj, conditions = .object obj ∧ obj ≠ [] := by
    cases conditions with
    | object obj =>
        refine ⟨obj, rfl, ?_⟩
        rintro rfl
        cases hbuilt
    | _ => cases hbuilt
  rw [parsePgConditions_object hne, Option.map_eq_some_iff] at hbuilt
  obtain ⟨t, ht, heq⟩ := hbuilt
  cases heq
  obtain ⟨shown, hshown, hsub, hkeeps⟩ := showsKept_conditionsGroup h n
  rw [ht] at hshown
  have hplaceholders : placeholders template = shown.flatten := by
    cases hshown with
    | cons hshows hnil =>
        cases hnil
        rw [List.flatten_cons, List.flatten_nil, List.append_nil]
        exact hshows.placeholders_eq
  rw [hplaceholders, ← hkeeps]
  constructor
  · intro hall
    rw [hall, List.length_range']
  · intro hlength
    exact hsub.eq_of_length (by rw [hlength, List.length_range'])

/-- `{field: {"match": {"value": n}}}`. -/
def sizeIs (field : String) (n : ℕ) : String × Json :=
  (field, .object [("match", .object [("value", .ofNat n)])])

theorem parsePgConditions_placeholders_sizes :
    placeholders "(\"a\" = $3 AND \"b\" = $4)".toList = List.range' 3 2 ↔
      everyLeaf keepsValues
        (.object [("and", .array [.object [sizeIs "a" 1], .object [sizeIs "b" 2]])]) = true :=
  parsePgConditions_placeholders plainText _ 3 (by decide)
    (show parsePgConditions plainText _ 3 = some (_, [.int 1, .int 2]) from rfl)

/-- A field without an object behind one that binds a value. -/
def droppedValue : Json :=
  .object [("and", .array [.object [sizeIs "a" 1, ("b", .ofNat 5)], .object [sizeIs "c" 2]])]

/-- A bound with a quote in a string. -/
def oddBound : Json := .object [("x", .string "\"$9")]

def oddBoundText (_ : Json) : Text := "\x7b\"x\":\"\\\"$9\"\x7d".toList

/-- A value is bound and left out, and a bound shows a placeholder that no value is bound to. -/
theorem placeholders_droppedOrOdd :
    (parsePgConditions plainText droppedValue 3 =
        some ("(\"c\" = $4)".toList, [.int 1, .int 2]) ∧
      placeholders "(\"c\" = $4)".toList ≠ List.range' 3 2) ∧
    ∃ template, parsePgConditions oddBoundText (.object [("and", .array [.object
        [("a", .object [("range", .object [("lt", oddBound)])])]])]) 3 = some (template, []) ∧
      placeholders template = [9] := by
  refine ⟨⟨by rfl, by decide⟩, _, rfl, by rfl⟩

end VectorDbBenchmark.Pgvector
