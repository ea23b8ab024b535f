import VectorDbBenchmark.Hybrid.ClauseText
import VectorDbBenchmark.Redis.ConditionTree

/-!
# Clauses of a leaf

What a leaf of a conditions value says, with its values as the builder binds them, and the
clauses its filter renders: which leaves of the filter syntax they are, and which values
their parameters have.  A geo leaf has a clause of its own kind and is left out here.
-/

namespace VectorDbBenchmark.Redis

open Kit GroupSyntax Hybrid

/-! ## Conditions -/

/-- What a leaf says. -/
inductive Condition where
  /-- The field has one of the tags. -/
  | tags (field : String) (values : List String)
  /-- The field has one of the numbers. -/
  | numbers (field : String) (values : List FilterParamValue)
  /-- The field has the terms. -/
  | text (field : String) (terms : String)
  /-- The field has a number within all bounds. -/
  | range (field : String) (bounds : List (Operator × FilterParamValue))
  /-- The field lies within a radius of a point. -/
  | geo (field : String) (lon lat radius : FilterParamValue)
deriving DecidableEq, Repr

def Condition.field : Condition → String
  | tags field _ => field
  | numbers field _ => field
  | text field _ => field
  | range field _ => field
  | geo field _ _ _ => field

def valueCondition (field : String) (value : Json) : Option Condition :=
  match value.asBool with
  | some b => some (.tags field [if b then "true" else "false"])
  | none =>
    match value.asStr with
    | some s => some (.tags field [s])
    | none =>
      match value.asI64 with
      | some i => some (.numbers field [.int i])
      | none => value.asF64.map fun f ↦ .numbers field [.float f]

/-- A list of integers, or of nonempty strings. -/
def anyCondition (field : String) (any : List Json) : Option Condition :=
  if any.isEmpty then none
  else if any.all fun v ↦ v.asI64.isSome then
    some (.numbers field ((any.filterMap Json.asI64).map .int))
  else if any.all fun v ↦ v.asStr.any fun s ↦ !s.isEmpty then
    some (.tags field (any.filterMap Json.asStr))
  else none

/-- A text that is not blank, without the blanks around it. -/
def textCondition (field text : String) : Option Condition :=
  if (trim text.toList).isEmpty then none else some (.text field (.ofList (trim text.toList)))

/-- One bound or more, all of them numbers. -/
def rangeCondition (env : NumberEnv) (field : String) (criteria : Json) : Option Condition :=
  let given := rangeKeys.filterMap fun k ↦ (criteria.get k.1).map fun v ↦ (k, v)
  if given.isEmpty || !given.all fun b ↦ (toNumber env b.2).isSome then none
  else some (.range field
    (given.filterMap fun b ↦ (toNumber env b.2).map fun value ↦ (b.1.2, value)))

def geoCondition (env : NumberEnv) (field : String) (criteria : Json) : Option Condition := do
  let lon ← toNumber env (← criteria.get "lon")
  let lat ← toNumber env (← criteria.get "lat")
  let radius ← toNumber env (← criteria.get "radius")
  some (.geo field lon lat radius)

/-- What a leaf says that is well formed for the builder. -/
def leafCondition (env : NumberEnv) (l : Leaf) : Option Condition :=
  if l.op = "match" then
    match l.criteria with
    | .object [("value", value)] => valueCondition l.field value
    | .object [("any", .array any)] => anyCondition l.field any
    | .object [("text", .string text)] => textCondition l.field text
    | _ => none
  else if l.op = "range" then rangeCondition env l.field l.criteria
  else if l.op = "geo" then geoCondition env l.field l.criteria
  else none

/-! ## Names -/

section Names

variable {field : String} (hfield : Plain field)
include hfield

theorem plain_paramName (n : ℕ) : Plain (paramName field n) := by
  intro c hc
  rw [toList_paramName, List.mem_append, List.mem_cons] at hc
  rcases hc with hc | rfl | hc
  · exact hfield c hc
  · decide
  · have hdigit := isDigit_of_mem_natRepr hc
    intro hmem
    have hnone : delimiters.all fun c ↦ !c.isDigit := by decide
    have hnot := List.all_eq_true.mp hnone c hmem
    rw [hdigit] at hnot
    cases hnot

theorem nameOk_paramName (n : ℕ) : NameOk (paramName field n) where
  plain := plain_paramName hfield n
  last := by
    have hne : n.repr.toList ≠ [] := by
      rw [Nat.toList_repr]
      exact Nat.toDigits_ne_nil
    obtain ⟨u, c, hu⟩ := List.eq_nil_or_concat n.repr.toList |>.resolve_left hne
    rw [List.concat_eq_append] at hu
    refine ⟨field.toList ++ '_' :: u, c, ?_, ?_⟩
    · rw [toList_paramName, hu, List.append_assoc, List.cons_append]
    · have hc : c ∈ n.repr.toList := hu ▸ List.mem_append_right _ List.mem_cons_self
      exact not_isWhiteSpace_of_isDigit (isDigit_of_mem_natRepr hc)

theorem nameOk_role (n : ℕ) {role : String} (hrole : role ∈ roles) :
    NameOk (paramName field n ++ "_" ++ role) := by
  have hname : (paramName field n ++ "_" ++ role).toList =
      (paramName field n).toList ++ '_' :: role.toList := toList_roleName field n role
  have hroles : roles.all fun role ↦ role.toList.all fun c ↦ !delimiters.contains c := by
    decide
  have hlasts : roles.all fun role ↦ role.toList.getLast?.any fun c ↦ !isWhiteSpace c := by
    decide
  refine ⟨fun c hc ↦ ?_, ?_⟩
  · rw [hname, List.mem_append, List.mem_cons] at hc
    rcases hc with hc | rfl | hc
    · exact plain_paramName hfield n c hc
    · decide
    · have hnot := List.all_eq_true.mp (List.all_eq_true.mp hroles role hrole) c hc
      intro hmem
      rw [List.contains_iff_mem.mpr hmem] at hnot
      cases hnot
  · obtain ⟨c, hc, hblank⟩ := (Option.any_eq_true _ _).mp (List.all_eq_true.mp hlasts role hrole)
    obtain ⟨u, hu⟩ := List.getLast?_eq_some_iff.mp hc
    refine ⟨(paramName field n).toList ++ '_' :: u, c, ?_, ?_⟩
    · rw [hname, hu, List.append_assoc, List.cons_append]
    · rwa [Bool.not_eq_true'] at hblank

end Names

/-! ## Clauses -/

/-- The interval with one point. -/
def pointLeaf (field p : String) : RLeaf := .range field (some (p, false)) (some (p, false))

namespace Bound

/-- The parameter of a lower bound, exclusive or not. -/
def lowerEnd (b : Bound) : Option (String × Bool) :=
  match b.operator with
  | .gt => some (b.parameter, true)
  | .gte => some (b.parameter, false)
  | .lt | .lte => none

def upperEnd (b : Bound) : Option (String × Bool) :=
  match b.operator with
  | .lt => some (b.parameter, true)
  | .lte => some (b.parameter, false)
  | .gt | .gte => none

end Bound

/-- The ends on one side, an infinite one when there are none. -/
def endsOn (side : Bound → Option (String × Bool)) (bs : List Bound) :
    List (Option (String × Bool)) :=
  if (bs.filterMap side).isEmpty then [none] else (bs.filterMap side).map some

/-- The intervals of a range leaf. -/
def intervals (field : String) (bs : List Bound) : List RLeaf :=
  (endsOn Bound.lowerEnd bs).flatMap fun lo ↦
    (endsOn Bound.upperEnd bs).map fun hi ↦ .range field lo hi

section Says

variable {L : Type} (emb : RLeaf → L) (M : Params)

/-- The clauses of a condition, with its values bound in `M`. -/
def Says : Condition → BoolTree L → Prop
  | .tags field values, w => ∃ ps, w = .leaf (emb (.tag field ps)) ∧
      List.Forall₂ (fun p v ↦ M.get p = some (.str v)) ps values
  | .numbers field values, w =>
    ∃ ps, w = BoolTree.collapse .any (ps.map fun p ↦ .leaf (emb (pointLeaf field p))) ∧
      List.Forall₂ (fun p v ↦ M.get p = some v) ps values
  | .text field terms, w => ∃ p, w = .leaf (emb (.text field p)) ∧ M.get p = some (.str terms)
  | .range field bounds, w =>
    ∃ bs, w = BoolTree.collapse .all ((intervals field bs).map fun r ↦ .leaf (emb r)) ∧
      List.Forall₂ (fun (b : Bound) e ↦ b.operator = e.1 ∧ M.get b.parameter = some e.2) bs bounds
  | .geo .., _ => False

end Says

section Clauses

variable {L : Type} {emb : RLeaf → L} {leafText : L → Text}
variable (hemb : ∀ r, leafText (emb r) = r.render)

/-- A clause that can be read back. -/
def ClauseOk (emb : RLeaf → L) (x : L) : Prop := ∃ r : RLeaf, x = emb r ∧ r.Ok

/-- A clause as a sequence. -/
def clause (emb : RLeaf → L) (r : RLeaf) : Sequence L := .one (.leaf (emb r))

theorem tree_clause (r : RLeaf) : (clause emb r).tree = .leaf (emb r) := by
  rw [clause, Sequence.tree_one, Item.tree]

theorem trees_clause (r : RLeaf) : (clause emb r).trees = [.leaf (emb r)] := by
  rw [clause, Sequence.trees, Item.tree]

theorem leaves_clause (r : RLeaf) : (clause emb r).leaves = [emb r] := by
  rw [clause, Sequence.leaves, Item.leaves]

theorem clauseOk_of_mem_leaves {rs : List RLeaf} (hok : ∀ r ∈ rs, r.Ok) {x : L}
    (hx : x ∈ (rs.map (clause emb)).flatMap Sequence.leaves) : ClauseOk emb x := by
  rw [List.flatMap_map, List.mem_flatMap] at hx
  obtain ⟨r, hr, hx⟩ := hx
  rw [leaves_clause, List.mem_singleton] at hx
  exact ⟨r, hx, hok r hr⟩

include hemb

theorem render_clause (r : RLeaf) : (clause emb r).render leafText = r.render := by
  rw [clause, Sequence.render, Item.render, hemb]

theorem map_render_clause (rs : List RLeaf) :
    (rs.map (clause emb)).map (Sequence.render leafText) = rs.map RLeaf.render := by
  rw [List.map_map]
  exact List.map_congr_left fun r _ ↦ render_clause hemb r

variable {M : Params} {a : Condition} {q : Query} {r : RLeaf} {rs : List RLeaf}

/-- Clauses with blanks between them. -/
theorem expresses_clauses (htext : q.text = [' '].intercalate ((r :: rs).map RLeaf.render))
    (hok : ∀ r' ∈ r :: rs, r'.Ok)
    (hmeans : Says emb M a (BoolTree.collapse .all ((r :: rs).map fun r ↦ .leaf (emb r)))) :
    Expresses leafText (Says emb M) (ClauseOk emb) (.leaf a) q := by
  have htree : ((clause emb r).concat (rs.map (clause emb))).tree =
      BoolTree.collapse .all ((r :: rs).map fun r ↦ .leaf (emb r)) := by
    rw [Sequence.tree, Sequence.trees_concat, ← List.map_cons, List.map_map, List.flatMap_map]
    refine congrArg (BoolTree.collapse .all) ?_
    rw [List.map_eq_flatMap]
    exact List.flatMap_congr fun r _ ↦ trees_clause r
  refine ⟨(clause emb r).concat (rs.map (clause emb)), ?_, ⟨_, .leaf (htree ▸ hmeans), rfl⟩, ?_⟩
  · rw [Sequence.render_concat, ← List.map_cons, map_render_clause hemb, htext]
  · intro x hx
    rw [Sequence.leaves_concat, ← List.map_cons] at hx
    exact clauseOk_of_mem_leaves hok hx

/-- One clause alone. -/
theorem expresses_clause (htext : q.text = r.render) (hok : r.Ok)
    (hmeans : Says emb M a (.leaf (emb r))) :
    Expresses leafText (Says emb M) (ClauseOk emb) (.leaf a) q := by
  have htexts : q.text = [' '].intercalate ([r].map RLeaf.render) := by
    rw [htext]
    exact (List.append_nil _).symm
  exact expresses_clauses hemb htexts (List.forall_mem_singleton.mpr hok) hmeans

/-- Clauses as the alternatives of a group. -/
theorem expresses_points
    (htext : q.text = '(' :: ([' ', '|', ' '].intercalate ((r :: rs).map RLeaf.render) ++ [')']))
    (hok : ∀ r' ∈ r :: rs, r'.Ok)
    (hmeans : Says emb M a (BoolTree.collapse .any ((r :: rs).map fun r ↦ .leaf (emb r)))) :
    Expresses leafText (Says emb M) (ClauseOk emb) (.leaf a) q := by
  have htree : (Sequence.one (Item.anyOf (clause emb r) (rs.map (clause emb)))).tree =
      BoolTree.collapse .any ((r :: rs).map fun r ↦ .leaf (emb r)) := by
    rw [Sequence.tree_one, Item.anyOf, Item.tree, Alternatives.trees_ofSequences, ← List.map_cons,
      List.map_map]
    refine congrArg (BoolTree.collapse .any) ?_
    exact List.map_congr_left fun r _ ↦ tree_clause r
  refine ⟨.one (.anyOf (clause emb r) (rs.map (clause emb))), ?_,
    ⟨_, .leaf (htree ▸ hmeans), rfl⟩, ?_⟩
  · rw [Sequence.render, Item.render_anyOf, ← List.map_cons, map_render_clause hemb, htext]
  · intro x hx
    rw [Sequence.leaves, Item.leaves_anyOf, ← List.map_cons] at hx
    exact clauseOk_of_mem_leaves hok hx

end Clauses

/-! ## Text of the clauses -/

/-- A value between the brackets of its clause. -/
theorem text_frame (l : RLeaf) (opening close : String) {b : Query} (hb : b.text = l.body)
    (hopening : opening.toList = [':', l.brackets.1]) (hclose : close.toList = [l.brackets.2]) :
    Query.text ([.lit "@", .lit l.field, .lit opening] ++ b ++ [.lit close]) = l.render := by
  have hat : "@".toList = ['@'] := rfl
  simp only [Query.text_append, Query.text_cons, Query.text_nil, Piece.text, hb, hat, hopening,
    hclose, RLeaf.render, List.cons_append, List.nil_append, List.append_nil]

theorem text_tagClause {field : String} {q : Query} {ps : List String}
    (h : q.text = [' ', '|', ' '].intercalate (ps.map refText)) :
    (tagClause field q).text = (RLeaf.tag field ps).render :=
  text_frame (.tag field ps) ":\x7b" "\x7d" h rfl rfl

theorem text_ref (p : String) : Query.text [.ref p] = refText p := List.append_nil _

theorem text_textClause (field p : String) :
    (textClause field p).text = (RLeaf.text field p).render :=
  text_frame (.text field p) ":(" ")" (text_ref p) rfl rfl

/-- One end of an interval. -/
def endQuery (inf : String) : Option (String × Bool) → Query
  | none => [.lit inf]
  | some (p, true) => [.lit "(", .ref p]
  | some (p, false) => [.ref p]

theorem text_endQuery (inf : String) (e : Option (String × Bool)) :
    (endQuery inf e).text = endText inf e := by
  rcases e with _ | ⟨p, _ | _⟩
  · exact List.append_nil _
  · exact text_ref p
  · exact congrArg ('(' :: ·) (text_ref p)

theorem text_interval (field : String) (lo hi : Option (String × Bool)) :
    (interval field (endQuery "-inf" lo) (endQuery "+inf" hi)).text =
      (RLeaf.range field lo hi).render := by
  have hbody : Query.text (endQuery "-inf" lo ++ ([.lit " "] ++ endQuery "+inf" hi)) =
      (RLeaf.range field lo hi).body := by
    rw [Query.text_append, Query.text_append, text_endQuery, text_endQuery]
    rfl
  rw [← text_frame (.range field lo hi) ":[" "]" hbody rfl rfl, interval, List.append_assoc,
    List.append_assoc, List.append_assoc, List.append_assoc, List.append_assoc]
  rfl

theorem text_pointClause (field p : String) :
    (pointClause field p).text = (pointLeaf field p).render :=
  text_interval field (some (p, false)) (some (p, false))

/-! ## The builders -/

section Builders

variable {L : Type} {emb : RLeaf → L} {leafText : L → Text}
variable (hemb : ∀ r, leafText (emb r) = r.render)
variable {M : Params} (hM : M.names.Nodup) {field : String} (hfield : Plain field) {c : ℕ}
  {a : Condition}

include hfield in
theorem ok_tag {ps : List String} (hps : ∀ p ∈ ps, NameOk p) (hne : ps ≠ []) :
    (RLeaf.tag field ps).Ok where
  field := hfield
  names := hps
  value f h := by
    cases h
    exact hne rfl

include hfield in
theorem ok_text {p : String} (hp : NameOk p) : (RLeaf.text field p).Ok where
  field := hfield
  names := List.forall_mem_singleton.mpr hp
  value f h := by cases h

include hfield in
theorem ok_range {lo hi : Option (String × Bool)}
    (h : ∀ p ∈ (lo.toList ++ hi.toList).map Prod.fst, NameOk p) : (RLeaf.range field lo hi).Ok where
  field := hfield
  names := h
  value f h := by cases h

include hfield in
theorem ok_point {p : String} (hp : NameOk p) : (pointLeaf field p).Ok :=
  ok_range hfield (List.forall_mem_cons.mpr ⟨hp, List.forall_mem_singleton.mpr hp⟩)

/-- The filter of an optional builder renders clauses that say what the leaf says. -/
def Built (emb : RLeaf → L) (leafText : L → Text) (M : Params) (a : Condition)
    (built : Option ParsedFilter) : Prop :=
  ∃ f, built = some f ∧ Expresses leafText (Says emb M) (ClauseOk emb) (.leaf a) f.1

theorem texts_refs (ps : List String) :
    (Query.join " | " (ps.map fun p ↦ [.ref p])).text =
      [' ', '|', ' '].intercalate (ps.map refText) := by
  have hsep : " | ".toList = [' ', '|', ' '] := rfl
  rw [Query.text_join, hsep, List.map_map]
  refine congrArg [' ', '|', ' '].intercalate ?_
  exact List.map_congr_left fun p _ ↦ text_ref p

include hemb hfield in
/-- A tag clause. -/
theorem tags_expresses {ps : List String} {values : List String} (hne : ps ≠ [])
    (hps : ∀ p ∈ ps, NameOk p)
    (hget : List.Forall₂ (fun p v ↦ M.get p = some (.str v)) ps values) :
    Expresses leafText (Says emb M) (ClauseOk emb) (.leaf (.tags field values))
      (tagClause field (Query.join " | " (ps.map fun p ↦ [.ref p]))) := by
  have htext := (text_tagClause (texts_refs ps) : (tagClause field _).text = _)
  exact expresses_clause hemb htext (ok_tag hfield hps hne) ⟨ps, rfl, hget⟩

include hemb hfield in
/-- A tag clause with one value. -/
theorem tag_expresses {p s : String} (hp : NameOk p) (hget : M.get p = some (.str s)) :
    Expresses leafText (Says emb M) (ClauseOk emb) (.leaf (.tags field [s]))
      (tagClause field [.ref p]) := by
  have htags := tags_expresses (L := L) hemb hfield (List.cons_ne_nil p [])
    (List.forall_mem_singleton.mpr hp) (.cons hget .nil)
  rwa [List.map_singleton, Query.join_singleton] at htags

include hemb hfield in
/-- The intervals of several numbers, as the alternatives of a group. -/
theorem points_express {ps : List String} {values : List FilterParamValue} (hne : ps ≠ [])
    (hps : ∀ p ∈ ps, NameOk p) (hget : List.Forall₂ (fun p v ↦ M.get p = some v) ps values) :
    Expresses leafText (Says emb M) (ClauseOk emb) (.leaf (.numbers field values))
      ([.lit "("] ++ Query.join " | " (ps.map (pointClause field)) ++ [.lit ")"]) := by
  have hsep : " | ".toList = [' ', '|', ' '] := rfl
  have htexts : (ps.map (pointClause field)).map Query.text =
      (ps.map (pointLeaf field)).map RLeaf.render := by
    rw [List.map_map, List.map_map]
    exact List.map_congr_left fun p _ ↦ text_pointClause field p
  have hmeans : Says emb M (.numbers field values)
      (BoolTree.collapse .any ((ps.map (pointLeaf field)).map fun r ↦ .leaf (emb r))) := by
    refine ⟨ps, ?_, hget⟩
    rw [List.map_map]
    rfl
  have hok : ∀ r ∈ ps.map (pointLeaf field), r.Ok :=
    List.forall_mem_map.mpr fun p hp ↦ ok_point hfield (hps p hp)
  cases ps with
  | nil => exact absurd rfl hne
  | cons p ps =>
      refine expresses_points hemb ?_ hok hmeans
      rw [Query.text_parens, Query.text_join, hsep, htexts]
      rfl

include hemb hfield in
/-- An interval with one point. -/
theorem point_expresses {p : String} {v : FilterParamValue} (hp : NameOk p)
    (hget : M.get p = some v) :
    Expresses leafText (Says emb M) (ClauseOk emb) (.leaf (.numbers field [v]))
      (pointClause field p) :=
  expresses_clause hemb (text_pointClause field p) (ok_point hfield hp)
    ⟨[p], rfl, .cons hget .nil⟩

include hemb hM hfield in
theorem value_built {v : Json} (ha : valueCondition field v = some a)
    (hbound : ∀ f ∈ (buildExactMatchFilter field (.object [("value", v)]) c).1, ∀ e ∈ f.2, e ∈ M) :
    Built emb leafText M a (buildExactMatchFilter field (.object [("value", v)]) c).1 := by
  have hvalue : (Json.object [("value", v)]).get "value" = some v := by
    rw [Json.get, Json.getEntry, if_pos rfl]
  have hname := nameOk_paramName hfield c
  rw [buildExactMatchFilter, hvalue] at hbound ⊢
  dsimp only at hbound ⊢
  rw [valueCondition] at ha
  cases hbool : v.asBool with
  | some b =>
      rw [hbool] at ha hbound
      cases ha
      refine ⟨_, rfl, tag_expresses hemb hfield hname ?_⟩
      exact Params.get_of_mem hM (hbound _ rfl _ List.mem_cons_self)
  | none =>
      rw [hbool] at ha hbound
      cases hstr : v.asStr with
      | some s =>
          dsimp only at ha hbound
          rw [hstr] at ha hbound
          cases ha
          refine ⟨_, rfl, tag_expresses hemb hfield hname ?_⟩
          exact Params.get_of_mem hM (hbound _ rfl _ List.mem_cons_self)
      | none =>
          dsimp only at ha hbound ⊢
          rw [hstr] at ha hbound
          cases hint : v.asI64 with
          | some i =>
              dsimp only at ha hbound
              rw [hint] at ha hbound
              cases ha
              refine ⟨_, rfl, point_expresses hemb hfield hname ?_⟩
              exact Params.get_of_mem hM (hbound _ rfl _ List.mem_cons_self)
          | none =>
              dsimp only at ha hbound ⊢
              rw [hint] at ha hbound
              obtain ⟨f, hf, rfl⟩ := Option.map_eq_some_iff.mp ha
              rw [hf] at hbound ⊢
              refine ⟨_, rfl, point_expresses hemb hfield hname ?_⟩
              exact Params.get_of_mem hM (hbound _ rfl _ List.mem_cons_self)

include hemb hM hfield in
theorem text_built {text : String} (ha : textCondition field text = some a)
    (hbound : ∀ e ∈ (buildTextFilter field text c).1.2, e ∈ M) :
    Built emb leafText M a (some (buildTextFilter field text c).1) := by
  rw [textCondition] at ha
  split_ifs at ha with hblank
  cases ha
  rw [buildTextFilter, if_neg hblank] at hbound ⊢
  have hget := Params.get_of_mem hM (hbound _ List.mem_cons_self)
  refine ⟨_, rfl, expresses_clause hemb (text_textClause field _) ?_ ⟨_, rfl, hget⟩⟩
  exact ok_text hfield (nameOk_paramName hfield c)

theorem map_snd_numbered {α : Type} (xs : List α) : (numbered field c xs).map Prod.snd = xs := by
  rw [numbered, List.map_map]
  exact List.zipIdx_map_fst c xs

include hfield in
theorem nameOk_numbered {α : Type} {xs : List α} {p : String}
    (hp : p ∈ (numbered field c xs).map Prod.fst) : NameOk p := by
  rw [map_fst_numbered] at hp
  obtain ⟨n, -, rfl⟩ := List.mem_map.mp hp
  exact nameOk_paramName hfield n

include hM in
/-- Numbered values, once they are bound. -/
theorem forall₂_numbered {α : Type} {xs : List α} {value : α → FilterParamValue}
    (hbound : ∀ e ∈ (numbered field c xs).map fun e ↦ (e.1, value e.2), e ∈ M) :
    List.Forall₂ (fun p x ↦ M.get p = some (value x)) ((numbered field c xs).map Prod.fst) xs := by
  have hsame : List.Forall₂ (fun p x ↦ M.get p = some (value x))
      ((numbered field c xs).map Prod.fst) ((numbered field c xs).map Prod.snd) := by
    rw [List.forall₂_map_left_iff, List.forall₂_map_right_iff, List.forall₂_same]
    exact fun e he ↦ Params.get_of_mem hM (hbound _ (List.mem_map_of_mem he))
  rwa [map_snd_numbered] at hsame

/-- Nonempty strings are all kept. -/
theorem filter_strings {any : List Json}
    (h : any.all fun v ↦ v.asStr.any fun s ↦ !s.isEmpty) :
    (any.filterMap Json.asStr).filter (fun s ↦ !s.isEmpty) = any.filterMap Json.asStr := by
  refine List.filter_eq_self.mpr fun s hs ↦ ?_
  obtain ⟨v, hv, hstr⟩ := List.mem_filterMap.mp hs
  have hany := List.all_eq_true.mp h v hv
  rwa [hstr, Option.any_some] at hany

include hemb hM hfield in
theorem any_built {any : List Json} (ha : anyCondition field any = some a)
    (hbound : ∀ e ∈ (buildMatchAnyFilter field any c).1.2, e ∈ M) :
    Built emb leafText M a (some (buildMatchAnyFilter field any c).1) := by
  rw [anyCondition] at ha
  rw [buildMatchAnyFilter] at hbound ⊢
  split_ifs at ha with hempty hints hstrings
  · cases ha
    have hne : any ≠ [] := fun hnil ↦ hempty (List.isEmpty_iff.mpr hnil)
    have hcond : (!any.isEmpty && any.all fun v ↦ v.asI64.isSome) = true := by
      rw [hints, Bool.and_true, Bool.not_eq_true']
      exact Bool.eq_false_iff.mpr hempty
    have hints : any.filterMap Json.asI64 ≠ [] :=
      filterMap_ne_nil hne fun v hv ↦ List.all_eq_true.mp hints v hv
    rw [if_pos hcond] at hbound ⊢
    dsimp only at hbound ⊢
    rw [foldl_insert (nodup_numbered field c _)] at hbound
    refine ⟨_, rfl, ?_⟩
    have hpoints := points_express (L := L) hemb hfield (numbered_ne_nil field c hints)
      (fun p hp ↦ nameOk_numbered hfield hp)
      (List.forall₂_map_right_iff.mpr (forall₂_numbered hM hbound))
    rwa [List.map_map] at hpoints
  · cases ha
    have hne : any ≠ [] := fun hnil ↦ hempty (List.isEmpty_iff.mpr hnil)
    have hcond : ¬(!any.isEmpty && any.all fun v ↦ v.asI64.isSome) = true := by
      rw [Bool.and_eq_true]
      exact fun h ↦ hints h.2
    have hstrs : any.filterMap Json.asStr ≠ [] := by
      refine filterMap_ne_nil hne fun v hv ↦ ?_
      have hany := List.all_eq_true.mp hstrings v hv
      cases hv : v.asStr with
      | none =>
          rw [hv] at hany
          cases hany
      | some s => rfl
    rw [if_neg hcond, filter_strings hstrings] at hbound ⊢
    dsimp only at hbound ⊢
    have htokens : ¬((numbered field c (any.filterMap Json.asStr)).map
        fun e ↦ [Piece.ref e.1]).isEmpty = true := by
      rw [List.isEmpty_map, List.isEmpty_iff]
      exact fun hnil ↦ numbered_ne_nil field c hstrs (List.map_eq_nil_iff.mpr hnil)
    rw [if_neg htokens] at hbound ⊢
    rw [foldl_insert (nodup_numbered field c _)] at hbound
    refine ⟨_, rfl, ?_⟩
    have htags := tags_expresses (L := L) hemb hfield (numbered_ne_nil field c hstrs)
      (fun p hp ↦ nameOk_numbered hfield hp) (forall₂_numbered hM hbound)
    rwa [List.map_map] at htags

/-! The pairings of the bounds of a range leaf. -/

theorem endsOn_ne_nil (side : Bound → Option (String × Bool)) (bs : List Bound) :
    endsOn side bs ≠ [] := by
  rw [endsOn]
  split_ifs with h
  · exact List.cons_ne_nil _ _
  · intro hnil
    exact h (List.isEmpty_iff.mpr (List.map_eq_nil_iff.mp hnil))

theorem endsOr_eq (inf : String) (side : Bound → Option (String × Bool)) (bs : List Bound) :
    endsOr inf (bs.filterMap fun b ↦ (side b).map fun e ↦ endQuery inf (some e)) =
      (endsOn side bs).map (endQuery inf) := by
  rw [endsOr, endsOn, ← List.map_filterMap, List.isEmpty_map]
  split_ifs
  · rfl
  · rw [List.map_map]
    rfl

theorem lower_eq (b : Bound) :
    b.lower = b.lowerEnd.map fun e ↦ endQuery "-inf" (some e) := by
  obtain ⟨parameter, _ | _ | _ | _⟩ := b <;> rfl

theorem upper_eq (b : Bound) :
    b.upper = b.upperEnd.map fun e ↦ endQuery "+inf" (some e) := by
  obtain ⟨parameter, _ | _ | _ | _⟩ := b <;> rfl

theorem intervals_ne_nil (field : String) (bs : List Bound) : intervals field bs ≠ [] := by
  obtain ⟨lo, hlo⟩ := List.exists_mem_of_ne_nil _ (endsOn_ne_nil Bound.lowerEnd bs)
  obtain ⟨hi, hhi⟩ := List.exists_mem_of_ne_nil _ (endsOn_ne_nil Bound.upperEnd bs)
  refine List.ne_nil_of_mem (a := .range field lo hi) ?_
  exact List.mem_flatMap.mpr ⟨lo, hlo, List.mem_map_of_mem hhi⟩

/-- The intervals as the builder writes them. -/
theorem exists_render {bs : List Bound} (hne : bs ≠ []) (field : String) :
    ∃ q, render field bs = some q ∧
      q.text = [' '].intercalate ((intervals field bs).map RLeaf.render) := by
  have hempty : ¬bs.isEmpty = true := fun h ↦ hne (List.isEmpty_iff.mp h)
  have hlower : bs.filterMap Bound.lower =
      bs.filterMap fun b ↦ b.lowerEnd.map fun e ↦ endQuery "-inf" (some e) :=
    congrArg (bs.filterMap ·) (funext lower_eq)
  have hupper : bs.filterMap Bound.upper =
      bs.filterMap fun b ↦ b.upperEnd.map fun e ↦ endQuery "+inf" (some e) :=
    congrArg (bs.filterMap ·) (funext upper_eq)
  refine ⟨_, if_neg hempty, ?_⟩
  rw [Query.text_join, hlower, hupper, endsOr_eq, endsOr_eq, intervals, List.map_flatMap,
    List.map_flatMap, List.flatMap_map]
  refine congrArg [' '].intercalate ?_
  refine List.flatMap_congr fun lo _ ↦ ?_
  rw [List.map_map, List.map_map, List.map_map]
  exact List.map_congr_left fun hi _ ↦ text_interval field lo hi

/-- The ends of the intervals are bounds. -/
theorem exists_bound_of_mem_endsOn {side : Bound → Option (String × Bool)}
    (hside : ∀ b e, side b = some e → e.1 = b.parameter) {bs : List Bound}
    {o : Option (String × Bool)} (ho : o ∈ endsOn side bs) {p : String}
    (hp : p ∈ o.toList.map Prod.fst) : ∃ b ∈ bs, p = b.parameter := by
  rw [endsOn] at ho
  split_ifs at ho
  · rw [List.mem_singleton] at ho
    subst ho
    exact absurd hp List.not_mem_nil
  · obtain ⟨e, he, rfl⟩ := List.mem_map.mp ho
    obtain ⟨b, hb, hbe⟩ := List.mem_filterMap.mp he
    rw [Option.toList_some, List.map_singleton, List.mem_singleton] at hp
    exact ⟨b, hb, hp.trans (hside b e hbe)⟩

theorem fst_of_lowerEnd (b : Bound) (e : String × Bool) (h : b.lowerEnd = some e) :
    e.1 = b.parameter := by
  obtain ⟨parameter, _ | _ | _ | _⟩ := b <;> cases h <;> rfl

theorem fst_of_upperEnd (b : Bound) (e : String × Bool) (h : b.upperEnd = some e) :
    e.1 = b.parameter := by
  obtain ⟨parameter, _ | _ | _ | _⟩ := b <;> cases h <;> rfl

include hfield in
theorem ok_intervals {bs : List Bound} (hbs : ∀ b ∈ bs, NameOk b.parameter) {r : RLeaf}
    (hr : r ∈ intervals field bs) : r.Ok := by
  obtain ⟨lo, hlo, hr⟩ := List.mem_flatMap.mp hr
  obtain ⟨hi, hhi, rfl⟩ := List.mem_map.mp hr
  refine ok_range hfield fun p hp ↦ ?_
  rw [List.map_append, List.mem_append] at hp
  rcases hp with hp | hp
  · obtain ⟨b, hb, rfl⟩ := exists_bound_of_mem_endsOn fst_of_lowerEnd hlo hp
    exact hbs b hb
  · obtain ⟨b, hb, rfl⟩ := exists_bound_of_mem_endsOn fst_of_upperEnd hhi hp
    exact hbs b hb

/-- The values of the given bounds, and the bounds that are bound to them. -/
theorem rangeCondition_eq {env : NumberEnv} {criteria : Json}
    (ha : rangeCondition env field criteria = some a) (paramPrefix : String) :
    rangeBounds env paramPrefix criteria ≠ [] ∧
      a = .range field ((rangeBounds env paramPrefix criteria).map fun b ↦
        (b.1.operator, b.2)) := by
  rw [rangeCondition] at ha
  split_ifs at ha with hcond
  cases ha
  rw [Bool.or_eq_true, not_or, Bool.not_eq_true', Bool.not_eq_false] at hcond
  obtain ⟨hgiven, hall⟩ := hcond
  have hbounds : rangeBounds env paramPrefix criteria =
      (rangeKeys.filterMap fun k ↦ (criteria.get k.1).map fun v ↦ (k, v)).filterMap fun b ↦
        (toNumber env b.2).map fun value ↦ (⟨paramPrefix ++ "_" ++ b.1.1, b.1.2⟩, value) := by
    rw [List.filterMap_filterMap, rangeBounds]
    refine congrArg (rangeKeys.filterMap ·) (funext fun k ↦ ?_)
    obtain ⟨key, operator⟩ := k
    dsimp only
    cases criteria.get key with
    | none => rfl
    | some v =>
        change ((toNumber env v).bind fun value ↦ some (_, value)) = (toNumber env v).map _
        cases toNumber env v <;> rfl
  rw [hbounds]
  constructor
  · refine filterMap_ne_nil (fun hnil ↦ hgiven (List.isEmpty_iff.mpr hnil)) fun b hb ↦ ?_
    rw [Option.isSome_map]
    exact List.all_eq_true.mp hall b hb
  · rw [List.map_filterMap]
    refine congrArg (Condition.range field) ?_
    refine congrArg (List.filterMap · _) (funext fun b ↦ ?_)
    cases toNumber env b.2 <;> rfl

include hemb hM hfield in
theorem range_built {env : NumberEnv} {criteria : Json}
    (ha : rangeCondition env field criteria = some a)
    (hbound : ∀ f ∈ (buildRangeFilter env field criteria c).1, ∀ e ∈ f.2, e ∈ M) :
    Built emb leafText M a (buildRangeFilter env field criteria c).1 := by
  obtain ⟨hne, rfl⟩ := rangeCondition_eq ha (paramName field c)
  rw [buildRangeFilter] at hbound ⊢
  dsimp only at hbound ⊢
  rw [foldl_insert (nodup_rangeBounds env field c criteria)] at hbound
  have hbounds : (rangeBounds env (paramName field c) criteria).map Prod.fst ≠ [] :=
    fun hnil ↦ hne (List.map_eq_nil_iff.mp hnil)
  obtain ⟨q, hq, htext⟩ := exists_render hbounds field
  rw [hq] at hbound ⊢
  refine ⟨_, rfl, ?_⟩
  have hnames : ∀ b ∈ (rangeBounds env (paramName field c) criteria).map Prod.fst,
      NameOk b.parameter := by
    intro b hb
    obtain ⟨e, he, rfl⟩ := List.mem_map.mp hb
    have hsub := rangeBounds_sublist env (paramName field c) criteria
    obtain ⟨k, hk, hname⟩ := List.mem_map.mp (hsub.subset (List.mem_map_of_mem he))
    rw [← hname]
    exact nameOk_role hfield c (mem_roles_of_rangeKeys hk)
  have hmeans : Says emb M (.range field ((rangeBounds env (paramName field c) criteria).map
      fun b ↦ (b.1.operator, b.2)))
      (BoolTree.collapse .all ((intervals field
        ((rangeBounds env (paramName field c) criteria).map Prod.fst)).map
          fun r ↦ .leaf (emb r))) := by
    refine ⟨_, rfl, ?_⟩
    rw [List.forall₂_map_left_iff, List.forall₂_map_right_iff, List.forall₂_same]
    exact fun e he ↦ ⟨rfl, Params.get_of_mem hM (hbound _ rfl _ (List.mem_map_of_mem he))⟩
  have hok := fun r hr ↦ ok_intervals (r := r) hfield hnames hr
  cases hints : intervals field ((rangeBounds env (paramName field c) criteria).map Prod.fst) with
  | nil => exact absurd hints (intervals_ne_nil field _)
  | cons r rs =>
      rw [hints] at htext hmeans hok
      exact expresses_clauses hemb htext hok hmeans

/-- The criteria of a leaf that says something by `match`. -/
theorem matchCondition_cases {env : NumberEnv} {criteria : Json}
    (ha : leafCondition env ⟨field, "match", criteria⟩ = some a) :
    (∃ value, criteria = .object [("value", value)] ∧ valueCondition field value = some a) ∨
      (∃ any, criteria = .object [("any", .array any)] ∧ anyCondition field any = some a) ∨
      ∃ text, criteria = .object [("text", .string text)] ∧ textCondition field text = some a := by
  rw [leafCondition, if_pos rfl] at ha
  dsimp only at ha
  split at ha
  · next value => exact .inl ⟨value, rfl, ha⟩
  · next any => exact .inr (.inl ⟨any, rfl, ha⟩)
  · next text => exact .inr (.inr ⟨text, rfl, ha⟩)
  · cases ha

include hemb hM hfield in
theorem match_built {env : NumberEnv} {criteria : Json}
    (ha : leafCondition env ⟨field, "match", criteria⟩ = some a)
    (hbound : ∀ f ∈ (buildFilter env field "match" criteria c).1, ∀ e ∈ f.2, e ∈ M) :
    Built emb leafText M a (buildFilter env field "match" criteria c).1 := by
  rcases matchCondition_cases ha with ⟨value, rfl, ha⟩ | ⟨any, rfl, ha⟩ | ⟨text, rfl, ha⟩
  · exact value_built hemb hM hfield ha hbound
  · exact any_built hemb hM hfield ha (hbound _ rfl)
  · exact text_built hemb hM hfield ha (hbound _ rfl)

include hemb hM in
/-- The filter of a leaf that is well formed and no geo leaf. -/
theorem leafFilter_expresses {env : NumberEnv} {l : Leaf} (ha : leafCondition env l = some a)
    (hgeo : l.op ≠ "geo") (hfield : Plain l.field)
    (hbound : ∀ e ∈ allParams (leafFilter env l c).1, e ∈ M) :
    ∃ f, (leafFilter env l c).1 = [f] ∧
      Expresses leafText (Says emb M) (ClauseOk emb) (.leaf a) f.1 := by
  obtain ⟨field, op, criteria⟩ := l
  have hbuilt : Built emb leafText M a (buildFilter env field op criteria c).1 := by
    have hparams : ∀ f ∈ (buildFilter env field op criteria c).1, ∀ e ∈ f.2, e ∈ M := by
      intro f hf e he
      refine hbound e ?_
      rw [leafFilter, Option.mem_def.mp hf, Option.toList_some, allParams_singleton]
      exact he
    by_cases hmatch : op = "match"
    · subst hmatch
      exact match_built hemb hM hfield ha hparams
    · by_cases hrange : op = "range"
      · subst hrange
        exact range_built hemb hM hfield ha hparams
      · rw [leafCondition, if_neg hmatch, if_neg hrange, if_neg hgeo] at ha
        cases ha
  obtain ⟨f, hf, hexpr⟩ := hbuilt
  refine ⟨f, ?_, hexpr⟩
  rw [leafFilter, hf]
  rfl

end Builders

end VectorDbBenchmark.Redis
