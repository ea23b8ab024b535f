import VectorDbBenchmark.Chroma.GeoFree
import VectorDbBenchmark.Kit.Projection

/-!
# The two Chroma filters of a condition tree

Each filter says what the leaves of its kind say in their groups.  When no disjunction has
leaves of both kinds, the two filters together say what the tree says.
-/

namespace VectorDbBenchmark.Chroma

open Kit Redis ConditionTree
open Json (isNumber)

/-! ## What a filter says -/

section Says

variable {α : Type} (atom : List (String × Json) → Option α) (holds : Document → α → Bool)

/-- A filter that is read as a tree of groups of at least two, which is true of the documents
`f` is true of. -/
def Says (f : Document → Bool) (j : Json) : Prop :=
  ∃ w, readFilter atom j = some w ∧ w.Wide (fun _ ↦ True) ∧ ∀ d, w.eval (holds d) = f d

variable {atom holds}

/-- Operands are read one after another. -/
theorem exists_readFilters {fs : List (Document → Bool)} {js : List Json}
    (h : List.Forall₂ (Says atom holds) fs js) :
    ∃ ws, readFilters atom js = some ws ∧ ws.length = js.length ∧
      (∀ w ∈ ws, w.Wide fun _ ↦ True) ∧
      ∀ d, ws.map (BoolTree.eval (holds d)) = fs.map fun f ↦ f d := by
  induction h with
  | nil => exact ⟨[], rfl, rfl, fun w hw ↦ absurd hw List.not_mem_nil, fun d ↦ rfl⟩
  | cons hj _ ih =>
      obtain ⟨w, hread, hwide, heval⟩ := hj
      obtain ⟨ws, hreads, hlen, hwides, hevals⟩ := ih
      refine ⟨w :: ws, ?_, congrArg (· + 1) hlen, List.forall_mem_cons.mpr ⟨hwide, hwides⟩, ?_⟩
      · rw [readFilters, hread, hreads]
        rfl
      · intro d
        rw [List.map_cons, List.map_cons, heval, hevals]

/-- Operands under the key of a group. -/
theorem exists_combine (key : String) (op : List Bool → Bool)
    {group : List (BoolTree α) → BoolTree α} {fs : List (Document → Bool)} {js : List Json}
    (hread : ∀ vs, readEntry atom key (.array vs) = (readFilters atom vs).map group)
    (hwide : ∀ ws, 2 ≤ ws.length → (∀ w ∈ ws, BoolTree.Wide (fun _ ↦ True) w) →
      BoolTree.Wide (fun _ ↦ True) (group ws))
    (heval : ∀ d ws, (group ws).eval (holds d) = op (ws.map (BoolTree.eval (holds d))))
    (hone : ∀ b, op [b] = b) (hne : fs ≠ []) (h : List.Forall₂ (Says atom holds) fs js) :
    ∃ c, combine js key = some c ∧ Says atom holds (fun d ↦ op (fs.map fun f ↦ f d)) c := by
  cases h with
  | nil => exact absurd rfl hne
  | @cons f j fs js hj hjs =>
      cases hjs with
      | nil =>
          obtain ⟨w, hw, hwwide, hweval⟩ := hj
          exact ⟨j, rfl, w, hw, hwwide, fun d ↦ (hweval d).trans (hone _).symm⟩
      | @cons f' j' fs js hj' hjs =>
          obtain ⟨ws, hws, hlen, hwides, hevals⟩ :=
            exists_readFilters (.cons hj (.cons hj' hjs))
          refine ⟨.object [(key, .array (j :: j' :: js))], rfl, group ws, ?_, ?_, fun d ↦ ?_⟩
          · rw [readFilter, readEntries, hread, hws]
            rfl
          · apply hwide ws _ hwides
            rw [hlen, List.length_cons, List.length_cons]
            omega
          · rw [heval, hevals]

theorem exists_combine_and {fs : List (Document → Bool)} {js : List Json} (hne : fs ≠ [])
    (h : List.Forall₂ (Says atom holds) fs js) :
    ∃ c, combine js "$and" = some c ∧ Says atom holds (fun d ↦ fs.all fun f ↦ f d) c := by
  have hread : ∀ vs, readEntry atom "$and" (.array vs) = (readFilters atom vs).map .all := by
    intro vs
    rw [readEntry, if_pos rfl]
  have heval : ∀ (d : Document) (ws : List (BoolTree α)),
      (BoolTree.all ws).eval (holds d) = (ws.map (BoolTree.eval (holds d))).all id := by
    intro d ws
    rw [BoolTree.eval_all, List.all_map]
    rfl
  obtain ⟨c, hc, w, hw, hwide, htold⟩ :=
    exists_combine "$and" (fun bs ↦ bs.all id) hread (fun ws ↦ .all) heval Bool.and_true hne h
  refine ⟨c, hc, w, hw, hwide, fun d ↦ (htold d).trans ?_⟩
  show (fs.map fun f ↦ f d).all id = _
  rw [List.all_map]
  rfl

theorem exists_combine_or {fs : List (Document → Bool)} {js : List Json} (hne : fs ≠ [])
    (h : List.Forall₂ (Says atom holds) fs js) :
    ∃ c, combine js "$or" = some c ∧ Says atom holds (fun d ↦ fs.any fun f ↦ f d) c := by
  have hread : ∀ vs, readEntry atom "$or" (.array vs) = (readFilters atom vs).map .any := by
    intro vs
    rw [readEntry, if_neg (by simp), if_pos rfl]
  have heval : ∀ (d : Document) (ws : List (BoolTree α)),
      (BoolTree.any ws).eval (holds d) = (ws.map (BoolTree.eval (holds d))).any id := by
    intro d ws
    rw [BoolTree.eval_any, List.any_map]
    rfl
  obtain ⟨c, hc, w, hw, hwide, htold⟩ :=
    exists_combine "$or" (fun bs ↦ bs.any id) hread (fun ws ↦ .any) heval Bool.or_false hne h
  refine ⟨c, hc, w, hw, hwide, fun d ↦ (htold d).trans ?_⟩
  show (fs.map fun f ↦ f d).any id = _
  rw [List.any_map]
  rfl

/-! ### Parts of trees -/

variable (env : NumberEnv) (atom holds)

/-- A filter that says what a tree says. -/
abbrev SaysTree (u : BoolTree Leaf) (j : Json) : Prop :=
  Says atom holds (fun d ↦ u.eval (leafHolds env d)) j

/-- Filters that say what the given trees say. -/
abbrev SaysEach : List (BoolTree Leaf) → List Json → Prop :=
  List.Forall₂ (SaysTree atom holds env)

variable {env atom holds}

/-- What is left of the members of a group, combined. -/
theorem says_regroup_all {us : List (BoolTree Leaf)} {js : List Json}
    (h : SaysEach atom holds env us js) :
    SaysEach atom holds env (BoolTree.regroup .all us).toList (combine js "$and").toList := by
  cases us with
  | nil =>
      cases h
      exact .nil
  | cons u us =>
      have htold : List.Forall₂ (Says atom holds)
          ((u :: us).map fun u d ↦ u.eval (leafHolds env d)) js :=
        List.forall₂_map_left_iff.mpr h
      obtain ⟨c, hc, w, hw, hwide, heval⟩ := exists_combine_and (List.cons_ne_nil _ _) htold
      rw [hc]
      refine .cons ⟨w, hw, hwide, fun d ↦ (heval d).trans ?_⟩ .nil
      show ((u :: us).map fun u d ↦ u.eval (leafHolds env d)).all (fun f ↦ f d) =
        (BoolTree.all (u :: us)).eval (leafHolds env d)
      rw [List.all_map, BoolTree.eval_all]
      rfl

theorem says_regroup_any {us : List (BoolTree Leaf)} {js : List Json}
    (h : SaysEach atom holds env us js) :
    SaysEach atom holds env (BoolTree.regroup .any us).toList (combine js "$or").toList := by
  cases us with
  | nil =>
      cases h
      exact .nil
  | cons u us =>
      have htold : List.Forall₂ (Says atom holds)
          ((u :: us).map fun u d ↦ u.eval (leafHolds env d)) js :=
        List.forall₂_map_left_iff.mpr h
      obtain ⟨c, hc, w, hw, hwide, heval⟩ := exists_combine_or (List.cons_ne_nil _ _) htold
      rw [hc]
      refine .cons ⟨w, hw, hwide, fun d ↦ (heval d).trans ?_⟩ .nil
      show ((u :: us).map fun u d ↦ u.eval (leafHolds env d)).any (fun f ↦ f d) =
        (BoolTree.any (u :: us)).eval (leafHolds env d)
      rw [List.any_map, BoolTree.eval_any]
      rfl

variable (keep : Leaf → Bool) (atom holds env)

/-- What is left of trees whose groups are not empty. -/
def SaysParts (ts : List (BoolTree Leaf)) (js : List Json) : Prop :=
  (∀ t ∈ ts, t.Filled) ∧
    SaysEach atom holds env (ts.flatMap fun t ↦ (BoolTree.project keep t).toList) js

/-- The same of the members of a group, of which there is one at least. -/
def SaysArm : Option (List (BoolTree Leaf)) → Option (List Json) → Prop :=
  Option.Rel fun ts js ↦ ts ≠ [] ∧ SaysParts atom holds env keep ts js

variable {keep atom holds env}

theorem says_project {t : BoolTree Leaf} {js : List Json} :
    SaysParts atom holds env keep [t] js ↔
      t.Filled ∧ SaysEach atom holds env (BoolTree.project keep t).toList js := by
  rw [SaysParts, List.forall_mem_singleton, List.flatMap_singleton]

theorem SaysParts.all {ts : List (BoolTree Leaf)} {js : List Json} (hne : ts ≠ [])
    (h : SaysParts atom holds env keep ts js) :
    SaysParts atom holds env keep [.all ts] (combine js "$and").toList := by
  rw [says_project, BoolTree.project_all]
  exact ⟨.all hne h.1, says_regroup_all h.2⟩

theorem SaysParts.any {ts : List (BoolTree Leaf)} {js : List Json} (hne : ts ≠ [])
    (h : SaysParts atom holds env keep ts js) :
    SaysParts atom holds env keep [.any ts] (combine js "$or").toList := by
  rw [says_project, BoolTree.project_any]
  exact ⟨.any hne h.1, says_regroup_any h.2⟩

theorem SaysParts.append {ts us : List (BoolTree Leaf)} {js ks : List Json}
    (h : SaysParts atom holds env keep ts js) (h' : SaysParts atom holds env keep us ks) :
    SaysParts atom holds env keep (ts ++ us) (js ++ ks) := by
  refine ⟨List.forall_mem_append.mpr ⟨h.1, h'.1⟩, ?_⟩
  rw [List.flatMap_append]
  exact List.rel_append h.2 h'.2

theorem combine_toList (o : Option Json) : combine o.toList "$and" = o := by
  cases o <;> rfl

/-- The groups of a conditions value, combined. -/
theorem says_combineGroups {ts us : Option (List (BoolTree Leaf))} {t : BoolTree Leaf}
    {andOps orOps : Option (List Json)} (ht : groupTree ts us = some t)
    (hand : SaysArm atom holds env keep ts andOps) (hor : SaysArm atom holds env keep us orOps) :
    SaysParts atom holds env keep [t] (combineGroups andOps orOps).toList := by
  rw [combineGroups]
  rcases hand with ⟨hne, hts⟩ | _ <;> rcases hor with ⟨hne', hus⟩ | _
  · cases ht
    exact .all (List.cons_ne_nil _ _) ((hts.all hne).append (hus.any hne'))
  · cases ht
    rw [Option.bind_none, Option.toList_none, List.append_nil, combine_toList]
    exact hts.all hne
  · cases ht
    rw [Option.bind_none, Option.toList_none, List.nil_append, combine_toList]
    exact hus.any hne'
  · cases ht

/-- A builder that combines the leaves it keeps says what is left of a tree. -/
theorem follows_of_leaf {B : GroupBuilder Id Json}
    (hisGroup : ∀ obj, B.isGroup obj = (containsKey "and" obj || containsKey "or" obj))
    (hleaf : ∀ obj, (containsKey "and" obj || containsKey "or" obj) = false →
      (Json.object obj).keysDistinct = true → (∀ e ∈ obj, e.2.asObject.isSome = true) →
      (∀ l ∈ fieldLeaves obj, WellFormed env l) →
      ∃ js, B.leaf obj = (combine js "$and").toList ∧
        SaysParts atom holds env keep ((fieldLeaves obj).map .leaf) js)
    (hgroup : ∀ obj andOps orOps, conditionsMentionGeo (.object obj) = false → obj ≠ [] →
      B.group obj andOps orOps = (combineGroups andOps orOps).toList) :
    B.Follows (WellFormed env) (fun t js ↦ SaysParts atom holds env keep [t] js.run)
      (fun ts js ↦ SaysParts atom holds env keep ts js.run)
      (fun ts js ↦ SaysArm atom holds env keep ts js.run) where
  isGroup _ := hisGroup _
  leaf hnot hkeys ht hP := by
    obtain ⟨hfields, hne, rfl⟩ := ofEntry_fields hnot ht
    obtain ⟨js, hjs, hparts⟩ := hleaf _ hnot hkeys hfields fun l hl ↦ hP l (by
      rw [BoolTree.leaves_all, List.flatMap_map]
      exact List.mem_flatMap.mpr ⟨l, hl, by simp⟩)
    rw [hjs]
    exact hparts.all (mt List.map_eq_nil_iff.mp hne)
  nil := ⟨fun t ht ↦ absurd ht List.not_mem_nil, .nil⟩
  cons hx hxs := hx.append hxs
  absent := .none
  array hts hx := .some ⟨ne_nil_of_ofEntries hts, hx⟩
  group hg hP hx hy := by
    have htold := says_combineGroups hg.tree hx hy
    rwa [← hgroup _ _ _ (geoFree_entry hg.keysDistinct hg.entry fun l hl ↦ (hP l hl).noGeo)
      (ne_nil_of_ofEntry hg.entry)] at htold

end Says

/-! ## Metadata -/

section Metadata

variable {env : NumberEnv}

/-- What is left to the metadata filter. -/
abbrev isMetadata (l : Leaf) : Bool := !isText l

theorem says_clause {field op : String} {operand : Json} {f : Document → Bool}
    (h : ∀ d, comparisonHolds d ⟨field, op, operand⟩ = f d) :
    Says readComparison comparisonHolds f (clause field op operand) := by
  refine ⟨.leaf ⟨field, op, operand⟩, ?_, .leaf trivial, fun d ↦ ?_⟩
  · rw [clause, readFilter, readEntries, readEntry]
    · rfl
    · intro vs h
      cases h
  · rw [BoolTree.eval_leaf, h]

theorem comparisonHolds_of_ne {d : Document} {c : Comparison} (h : c.op ≠ "$in") :
    comparisonHolds d c = d.compares c.field c.op c.operand := by
  unfold comparisonHolds
  split
  · next heq _ => exact absurd heq h
  · rfl

theorem boundClause_eq_some (field : String) {es : List (String × Json)} {k : String × String}
    {b lit : Json} (hentry : Json.getEntry k.1 es = some b) (hlit : bound env b = some lit) :
    boundClause env field es k = some (clause field k.2 lit) ∧
      ∀ d, boundHolds env d field (.object es) k = d.compares field k.2 lit := by
  have hget : (Json.object es).get k.1 = some b := hentry
  have hparts : boundClause env field es k = (bound env b).map (clause field k.2) ∧
      ∀ d, boundHolds env d field (.object es) k = (bound env b).any (d.compares field k.2) := by
    simp only [boundClause, boundHolds, hentry, hget]
    cases b with
    | null => cases hlit
    | bool _ => exact ⟨rfl, fun d ↦ rfl⟩
    | number _ => exact ⟨rfl, fun d ↦ rfl⟩
    | string _ => exact ⟨rfl, fun d ↦ rfl⟩
    | array _ => exact ⟨rfl, fun d ↦ rfl⟩
    | object _ => exact ⟨rfl, fun d ↦ rfl⟩
  rwa [hlit] at hparts

/-- The clause of a bound, if it is given. -/
theorem exists_boundClause {field : String} {es : List (String × Json)} {k : String × String}
    (hk : k.2 ≠ "$in") (hbounds : ∀ e ∈ es, e.2 = .null ∨ (bound env e.2).isSome) :
    ∃ fs, List.Forall₂ (Says readComparison comparisonHolds) fs
        (boundClause env field es k).toList ∧
      ∀ d, (fs.all fun f ↦ f d) = boundHolds env d field (.object es) k := by
  have hget : (Json.object es).get k.1 = Json.getEntry k.1 es := rfl
  rcases hentry : Json.getEntry k.1 es with _ | b
  · refine ⟨[], ?_, fun d ↦ ?_⟩
    · rw [boundClause, hentry]
      exact .nil
    · rw [boundHolds, hget, hentry]
      rfl
  · have hb : b = .null ∨ (bound env b).isSome = true := hbounds _ (Json.mem_of_getEntry hentry)
    rcases hb with rfl | hsome
    · refine ⟨[], ?_, fun d ↦ ?_⟩
      · rw [boundClause, hentry]
        exact .nil
      · rw [boundHolds, hget, hentry]
        rfl
    · obtain ⟨lit, hlit⟩ := Option.isSome_iff_exists.mp hsome
      obtain ⟨hclause, hholds⟩ := boundClause_eq_some field hentry hlit
      rw [hclause]
      refine ⟨[fun d ↦ d.compares field k.2 lit], .cons ?_ .nil, fun d ↦ ?_⟩
      · exact says_clause fun d ↦ comparisonHolds_of_ne hk
      · rw [hholds]
        exact Bool.and_true _

/-- The clauses of the bounds that are given. -/
theorem exists_boundClauses (field : String) {es : List (String × Json)}
    {ks : List (String × String)} (hks : ∀ k ∈ ks, k.2 ≠ "$in")
    (hbounds : ∀ e ∈ es, e.2 = .null ∨ (bound env e.2).isSome) :
    ∃ fs, List.Forall₂ (Says readComparison comparisonHolds) fs
        (ks.filterMap (boundClause env field es)) ∧
      ∀ d, (fs.all fun f ↦ f d) = ks.all (boundHolds env d field (.object es)) := by
  induction ks with
  | nil => exact ⟨[], .nil, fun d ↦ rfl⟩
  | cons k ks ih =>
      rw [List.forall_mem_cons] at hks
      obtain ⟨fs, hfs, heval⟩ := ih hks.2
      obtain ⟨gs, hgs, hbound⟩ := exists_boundClause hks.1 hbounds
      refine ⟨gs ++ fs, ?_, fun d ↦ ?_⟩
      · rw [List.filterMap_eq_flatMap_toList, List.flatMap_cons,
          ← List.filterMap_eq_flatMap_toList]
        exact List.rel_append hgs hfs
      · rw [List.all_append, List.all_cons, hbound, heval]

/-- The clause of a leaf, which a text leaf does not have. -/
theorem says_buildChromaLeaf {l : Leaf} (h : WellFormed env l) :
    SaysEach readComparison comparisonHolds env
      (BoolTree.project isMetadata (.leaf l)).toList
      (buildChromaLeaf env l.field l.op l.criteria).toList := by
  rw [BoolTree.project_leaf]
  have hone : ∀ {c : Json}, isText l = false →
      buildChromaLeaf env l.field l.op l.criteria = some c →
      Says readComparison comparisonHolds (fun d ↦ leafHolds env d l) c →
      SaysEach readComparison comparisonHolds env
        (if isMetadata l then some (BoolTree.leaf l) else none).toList
        (buildChromaLeaf env l.field l.op l.criteria).toList := by
    intro c htext hbuild htold
    rw [hbuild, isMetadata, htext]
    refine .cons ?_ .nil
    obtain ⟨w, hw, hwide, heval⟩ := htold
    exact ⟨w, hw, hwide, fun d ↦ (heval d).trans (BoolTree.eval_leaf _).symm⟩
  cases h with
  | any field vs h =>
      have hfilter : (vs.filter fun v ↦ isString v || isNumber v) = vs :=
        List.filter_eq_self.mpr h
      apply hone (c := clause field "$in" (.array vs))
      · simp [isText, Json.get, Json.getEntry]
      · simp [buildChromaLeaf, Json.get, Json.getEntry, Json.asArray, hfilter]
      · refine says_clause fun d ↦ ?_
        simp [comparisonHolds, leafHolds, Json.get, Json.getEntry, Json.asArray]
  | text field text =>
      have htext : isText ⟨field, "match", .object [("text", .string text)]⟩ = true := by
        simp [isText, Json.get, Json.getEntry]
      have hbuild :
          buildChromaLeaf env field "match" (.object [("text", .string text)]) = none := by
        simp [buildChromaLeaf, Json.get, Json.getEntry]
      rw [hbuild, isMetadata, htext]
      exact .nil
  | value field v h =>
      apply hone (c := clause field "$eq" v)
      · simp [isText, Json.get, Json.getEntry]
      · simp [buildChromaLeaf, Json.get, Json.getEntry, h]
      · refine says_clause fun d ↦ ?_
        rw [comparisonHolds_of_ne (by simp)]
        simp [leafHolds, Json.get, Json.getEntry]
  | range field es hkeys hbounds hsome =>
      have hks : ∀ k ∈ boundOps, k.2 ≠ "$in" := by simp [boundOps]
      obtain ⟨fs, hfs, heval⟩ := exists_boundClauses field hks hbounds
      have hne : fs ≠ [] := by
        rintro rfl
        obtain ⟨k, hk, hlit⟩ := hsome
        obtain ⟨lit, hlit⟩ := Option.isSome_iff_exists.mp hlit
        obtain ⟨b, hb, hlit⟩ := Option.bind_eq_some_iff.mp hlit
        have hmem : clause field k.2 lit ∈ boundOps.filterMap (boundClause env field es) :=
          List.mem_filterMap.mpr ⟨k, hk, (boundClause_eq_some field hb hlit).1⟩
        rw [List.forall₂_nil_left_iff.mp hfs] at hmem
        cases hmem
      obtain ⟨c, hc, htold⟩ := exists_combine_and hne hfs
      apply hone (c := c)
      · simp [isText]
      · exact hc
      · obtain ⟨w, hw, hwide, hweval⟩ := htold
        exact ⟨w, hw, hwide, fun d ↦ (hweval d).trans (heval d)⟩

/-- The metadata filter says what is left of a tree without its text leaves. -/
theorem follows_whereBuilder :
    (whereBuilder env).Follows (WellFormed env)
      (fun t js ↦ SaysParts readComparison comparisonHolds env isMetadata [t] js.run)
      (fun ts js ↦ SaysParts readComparison comparisonHolds env isMetadata ts js.run)
      (fun ts js ↦ SaysArm readComparison comparisonHolds env isMetadata ts js.run) := by
  apply follows_of_leaf
  · exact fun obj ↦ rfl
  · intro obj _ _ _ hwell
    refine ⟨_, rfl, ?_⟩
    generalize fieldLeaves obj = ls at hwell
    induction ls with
    | nil => exact ⟨fun t ht ↦ absurd ht List.not_mem_nil, .nil⟩
    | cons l ls ih =>
        rw [List.forall_mem_cons] at hwell
        have hleaf : SaysParts readComparison comparisonHolds env isMetadata [.leaf l]
            (buildChromaLeaf env l.field l.op l.criteria).toList :=
          says_project.mpr ⟨.leaf l, says_buildChromaLeaf hwell.1⟩
        rw [List.filterMap_eq_flatMap_toList, List.flatMap_cons,
          ← List.filterMap_eq_flatMap_toList]
        exact hleaf.append (ih hwell.2)
  · intro obj andOps orOps hgeo hne
    show (whereGroup obj andOps orOps).toList = _
    rw [whereGroup, if_neg (mt List.isEmpty_iff.mp hne), hgeo, if_neg Bool.false_ne_true]

end Metadata

/-! ## Text -/

section Text

variable {env : NumberEnv}

theorem WellFormed.text_or {l : Leaf} (h : WellFormed env l) :
    (∃ text, l.criteria = .object [("text", .string text)]) ∨ isText l = false := by
  cases h with
  | any field vs h => exact .inr (by simp [isText, Json.get, Json.getEntry])
  | text field text => exact .inl ⟨text, rfl⟩
  | value field v h => exact .inr (by simp [isText, Json.get, Json.getEntry])
  | range field es hkeys hbounds hsome => exact .inr (by simp [isText])

theorem says_containsClause {field text : String} :
    SaysTree readContains Document.contains env
      (.leaf ⟨field, "match", .object [("text", .string text)]⟩)
      (.object [("$contains", .string text)]) := by
  refine ⟨.leaf text, rfl, .leaf trivial, fun d ↦ ?_⟩
  simp [leafHolds, Json.get, Json.getEntry, Json.asStr]

/-- Only the match on a field can ask for a text. -/
theorem says_containsClause_object {field : String} {ops : List (String × Json)}
    (hnodup : (ops.map Prod.fst).Nodup) (hwell : ∀ e ∈ ops, WellFormed env ⟨field, e.1, e.2⟩) :
    SaysParts readContains Document.contains env isText
      (ops.map fun e ↦ .leaf ⟨field, e.1, e.2⟩) (containsClause (.object ops)).toList := by
  have hskip : ∀ {l : Leaf} {ts : List (BoolTree Leaf)} {js : List Json}, isText l = false →
      SaysParts readContains Document.contains env isText ts js →
      SaysParts readContains Document.contains env isText (.leaf l :: ts) js := by
    intro l ts js htext h
    have hleaf : SaysParts readContains Document.contains env isText [.leaf l] [] := by
      rw [says_project, BoolTree.project_leaf, htext]
      exact ⟨.leaf l, .nil⟩
    exact hleaf.append h
  have hnone : ∀ {ops : List (String × Json)}, "match" ∉ ops.map Prod.fst →
      SaysParts readContains Document.contains env isText
        (ops.map fun e ↦ .leaf ⟨field, e.1, e.2⟩) [] := by
    intro ops h
    induction ops with
    | nil => exact ⟨fun t ht ↦ absurd ht List.not_mem_nil, .nil⟩
    | cons e ops ih =>
        rw [List.map_cons, List.mem_cons, not_or] at h
        refine hskip ?_ (ih h.2)
        simp [isText, Ne.symm h.1]
  induction ops with
  | nil => exact hnone List.not_mem_nil
  | cons e ops ih =>
      obtain ⟨op, criteria⟩ := e
      rw [List.map_cons, List.nodup_cons] at hnodup
      rw [List.forall_mem_cons] at hwell
      by_cases hop : op = "match"
      · subst hop
        have hget : containsClause (.object (("match", criteria) :: ops)) =
            ((criteria.get "text").bind Json.asStr).map fun text ↦
              .object [("$contains", .string text)] := by
          rw [containsClause, Json.getEntry, if_pos rfl]
          simp only [Option.bind_eq_bind, Option.bind_some]
          rcases criteria.get "text" with _ | t
          · rfl
          · rw [Option.bind_some, Option.bind_some]
            rcases t.asStr with _ | text <;> rfl
        rw [hget, List.map_cons]
        rcases hwell.1.text_or with ⟨text, hcriteria⟩ | htext
        · have hcriteria : criteria = .object [("text", .string text)] := hcriteria
          subst hcriteria
          have hleaf : SaysParts readContains Document.contains env isText
              [.leaf ⟨field, "match", .object [("text", .string text)]⟩]
              [.object [("$contains", .string text)]] := by
            rw [says_project, BoolTree.project_leaf]
            exact ⟨.leaf _, .cons says_containsClause .nil⟩
          exact hleaf.append (hnone hnodup.1)
        · have hcriteria : criteria.get "text" = none := by
            simpa [isText] using htext
          rw [hcriteria]
          exact hskip htext (hnone hnodup.1)
      · have hget : containsClause (.object ((op, criteria) :: ops)) =
            containsClause (.object ops) := by
          rw [containsClause, containsClause, Json.getEntry, if_neg hop]
        rw [hget, List.map_cons]
        refine hskip ?_ (ih hnodup.2 hwell.2)
        simp [isText, hop]

/-- The full-text filter says what is left of a tree of its text leaves. -/
theorem follows_whereDocumentBuilder :
    whereDocumentBuilder.Follows (WellFormed env)
      (fun t js ↦ SaysParts readContains Document.contains env isText [t] js.run)
      (fun ts js ↦ SaysParts readContains Document.contains env isText ts js.run)
      (fun ts js ↦ SaysArm readContains Document.contains env isText ts js.run) := by
  apply follows_of_leaf
  · exact fun obj ↦ rfl
  · intro obj hnot hkeys hfields hwell
    clear hnot
    refine ⟨_, rfl, ?_⟩
    rw [Json.keysDistinct, Bool.and_eq_true] at hkeys
    obtain ⟨-, hkeys⟩ := hkeys
    induction obj with
    | nil => exact ⟨fun t ht ↦ absurd ht List.not_mem_nil, .nil⟩
    | cons e obj ih =>
        obtain ⟨field, v⟩ := e
        rw [Json.keysDistinctIn, Bool.and_eq_true] at hkeys
        rw [List.forall_mem_cons] at hfields
        rw [fieldLeaves, List.flatMap_cons, ← fieldLeaves, List.forall_mem_append] at hwell
        rw [fieldLeaves, List.flatMap_cons, ← fieldLeaves, List.map_append,
          List.filterMap_eq_flatMap_toList, List.flatMap_cons, ← List.filterMap_eq_flatMap_toList]
        refine SaysParts.append ?_ (ih hfields.2 hwell.2 hkeys.2)
        cases v with
        | object ops =>
            rw [List.map_map]
            refine says_containsClause_object (Json.nodup_of_keysDistinct hkeys.1) fun e he ↦ ?_
            exact hwell.1 _ (List.mem_map_of_mem he)
        | null => cases hfields.1
        | bool _ => cases hfields.1
        | number _ => cases hfields.1
        | string _ => cases hfields.1
        | array _ => cases hfields.1
  · intro obj andOps orOps hgeo _
    show (whereDocumentGroup obj andOps orOps).toList = _
    rw [whereDocumentGroup, hgeo, if_neg Bool.false_ne_true]

end Text

/-! ## The two filters -/

/-- A filter that is read as a tree of groups of at least two. -/
def ReadsAs {α : Type} (atom : List (String × Json) → Option α) :
    Option Json → Option (BoolTree α) → Prop :=
  Option.Rel fun j w ↦ readFilter atom j = some w ∧ w.Wide fun _ ↦ True

section Pair

variable {env : NumberEnv} {conditions : Json} {t : BoolTree Leaf}

theorem exists_readsAs {α : Type} {atom : List (String × Json) → Option α}
    {holds : Document → α → Bool} {u : Option (BoolTree Leaf)} {o : Option Json}
    (h : SaysEach atom holds env u.toList o.toList) :
    ∃ w, ReadsAs atom o w ∧ o.isSome = u.isSome ∧
      ∀ d, w.all (BoolTree.eval (holds d)) = u.all (BoolTree.eval (leafHolds env d)) := by
  cases u with
  | none =>
      cases o with
      | none => exact ⟨none, .none, rfl, fun d ↦ rfl⟩
      | some j => cases h
  | some u =>
      cases o with
      | none => cases h
      | some j =>
          obtain ⟨w, hread, hwide, heval⟩ := List.forall₂_cons.mp h |>.1
          exact ⟨some w, .some ⟨hread, hwide⟩, rfl, heval⟩

theorem says_buildChromaWhere (hkeys : conditions.keysDistinct = true)
    (ht : ofConditions conditions = some t) (hwell : ∀ l ∈ t.leaves, WellFormed env l) :
    SaysParts readComparison comparisonHolds env isMetadata [t]
      (buildChromaWhere env conditions).toList := by
  obtain ⟨obj, ts, us, rfl, hg, hand, hor⟩ := follows_whereBuilder.arms hkeys ht hwell
  have hbuild : buildChromaWhere env (.object obj) = combineGroups
      ((whereBuilder env).arrayAt "and" obj) ((whereBuilder env).arrayAt "or" obj) := by
    show whereGroup obj _ _ = _
    rw [whereGroup, if_neg (mt List.isEmpty_iff.mp (ne_nil_of_ofEntry hg.entry)),
      geoFree_entry hkeys hg.entry fun l hl ↦ (hwell l hl).noGeo, if_neg Bool.false_ne_true]
  rw [hbuild]
  exact says_combineGroups hg.tree hand hor

theorem says_buildChromaWhereDocument (hkeys : conditions.keysDistinct = true)
    (ht : ofConditions conditions = some t) (hwell : ∀ l ∈ t.leaves, WellFormed env l) :
    SaysParts readContains Document.contains env isText [t]
      (buildChromaWhereDocument conditions).toList := by
  obtain ⟨obj, ts, us, rfl, hg, hand, hor⟩ := follows_whereDocumentBuilder.arms hkeys ht hwell
  have hbuild : buildChromaWhereDocument (.object obj) = combineGroups
      (whereDocumentBuilder.arrayAt "and" obj) (whereDocumentBuilder.arrayAt "or" obj) := by
    show whereDocumentGroup obj _ _ = _
    rw [whereDocumentGroup, geoFree_entry hkeys hg.entry fun l hl ↦ (hwell l hl).noGeo,
      if_neg Bool.false_ne_true]
  rw [hbuild]
  exact says_combineGroups hg.tree hand hor

end Pair

/-- The two filters of a tree of well-formed leaves, in which no disjunction has text leaves
and others, are read as trees of groups of at least two that are both true of exactly the
documents the tree is true of, and one of them is there. -/
theorem filters_faithful {env : NumberEnv} {conditions : Json} {t : BoolTree Leaf}
    (hkeys : conditions.keysDistinct = true) (ht : ofConditions conditions = some t)
    (hwell : ∀ l ∈ t.leaves, WellFormed env l) (hapart : t.Apart isText) :
    ∃ w u, ReadsAs readComparison (buildChromaWhere env conditions) w ∧
      ReadsAs readContains (buildChromaWhereDocument conditions) u ∧
      (∀ d, (w.all (BoolTree.eval (comparisonHolds d)) && u.all (BoolTree.eval d.contains)) =
        t.eval (leafHolds env d)) ∧
      ((buildChromaWhere env conditions).isSome ||
        (buildChromaWhereDocument conditions).isSome) := by
  obtain ⟨hfilled, hwhere⟩ := says_project.mp (says_buildChromaWhere hkeys ht hwell)
  obtain ⟨-, htext⟩ := says_project.mp (says_buildChromaWhereDocument hkeys ht hwell)
  obtain ⟨w, hw, hwsome, hweval⟩ := exists_readsAs hwhere
  obtain ⟨u, hu, husome, hueval⟩ := exists_readsAs htext
  refine ⟨w, u, hw, hu, fun d ↦ ?_, ?_⟩
  · rw [hweval, hueval, BoolTree.eval_eq_project hfilled hapart, Bool.and_comm]
  · obtain ⟨l, hl⟩ := List.exists_mem_of_ne_nil _ hfilled.leaves_ne_nil
    rw [hwsome, husome, Bool.or_eq_true]
    cases hkeep : isText l with
    | true => exact .inr (BoolTree.isSome_project hl hkeep)
    | false => exact .inl (BoolTree.isSome_project hl (by rw [isMetadata, hkeep]; rfl))

/-! ## Examples -/

section Examples

/-- A text, and one of two metadata conditions. -/
def textAndTags : Json :=
  .object [("and", .array [leafEntry "body" "match" [("text", .string "x")],
    .object [("or", .array [leafEntry "a" "match" [("value", .string "y")],
      leafEntry "b" "range" [("gt", .ofNat 1)]])]])]

def textAndTagsTree : BoolTree Leaf :=
  .all [.all [.leaf ⟨"body", "match", .object [("text", .string "x")]⟩],
    .any [.all [.leaf ⟨"a", "match", .object [("value", .string "y")]⟩],
      .all [.leaf ⟨"b", "range", .object [("gt", .ofNat 1)]⟩]]]

theorem filters_faithful_textAndTags :
    ∃ w u, ReadsAs readComparison (buildChromaWhere noNumbers textAndTags) w ∧
      ReadsAs readContains (buildChromaWhereDocument textAndTags) u ∧
      (∀ d, (w.all (BoolTree.eval (comparisonHolds d)) && u.all (BoolTree.eval d.contains)) =
        textAndTagsTree.eval (leafHolds noNumbers d)) ∧
      ((buildChromaWhere noNumbers textAndTags).isSome ||
        (buildChromaWhereDocument textAndTags).isSome) := by
  have htree : ofConditions textAndTags = some textAndTagsTree := rfl
  have hleaves : textAndTagsTree.leaves = [⟨"body", "match", .object [("text", .string "x")]⟩,
      ⟨"a", "match", .object [("value", .string "y")]⟩,
      ⟨"b", "range", .object [("gt", .ofNat 1)]⟩] := rfl
  refine filters_faithful (by decide) htree ?_ ?_
  · rw [hleaves, List.forall_mem_cons, List.forall_mem_cons, List.forall_mem_singleton]
    refine ⟨.text _ _, .value _ _ rfl, .range _ _ ?_ ?_ ?_⟩
    · simp [boundOps]
    · simp [bound, Json.ofNat]
    · simp [boundOps, bound, Json.ofNat, Json.getEntry]
  · refine .all ?_
    rw [List.forall_mem_cons, List.forall_mem_singleton]
    refine ⟨.all ?_, .any false ?_⟩
    · rw [List.forall_mem_singleton]
      exact .leaf _
    · simp [isText, Json.get, Json.getEntry]

end Examples

end VectorDbBenchmark.Chroma
