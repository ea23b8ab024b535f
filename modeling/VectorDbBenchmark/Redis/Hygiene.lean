import VectorDbBenchmark.Redis.LeafParams

/-!
# Parameter hygiene

The leaves of a conditions value in the order in which the builder visits them, and what
holds of the names in the filter it builds: the whole filter has the references and the
parameters of its leaves, one after another, whatever the groups are.
-/

namespace VectorDbBenchmark.Redis

open Kit

/-! ## Collecting -/

section Collect

variable {α β : Type} {f : α → ℕ → List ParsedFilter × ℕ}

theorem collect_append (xs ys : List α) (c : ℕ) : collect f (xs ++ ys) c =
    ((collect f xs c).1 ++ (collect f ys (collect f xs c).2).1,
      (collect f ys (collect f xs c).2).2) := by
  induction xs generalizing c with
  | nil => rfl
  | cons x xs ih =>
      rw [List.cons_append, collect, collect]
      simp only [ih, List.append_assoc]

theorem collect_flatMap (g : β → List α) (xs : List β) (c : ℕ) :
    collect (fun x c ↦ collect f (g x) c) xs c = collect f (xs.flatMap g) c := by
  induction xs generalizing c with
  | nil => rfl
  | cons x xs ih =>
      rw [List.flatMap_cons, collect_append, collect]
      simp only [ih]

theorem collect_map (g : β → α) (xs : List β) (c : ℕ) :
    collect f (xs.map g) c = collect (fun x c ↦ f (g x) c) xs c := by
  induction xs generalizing c with
  | nil => rfl
  | cons x xs ih =>
      rw [List.map_cons, collect, collect]
      simp only [ih]

theorem collect_spread (hf : ∀ x c, Spread c (f x c).2 (f x c).1) (xs : List α) (c : ℕ) :
    Spread c (collect f xs c).2 (collect f xs c).1 := by
  induction xs generalizing c with
  | nil => exact .nil le_rfl
  | cons x xs ih => exact (hf x c).append (ih _)

theorem collect_closed {P : α → Prop} (hf : ∀ x c, Spread c (f x c).2 (f x c).1)
    (hP : ∀ x c, Closed (f x c).1 ↔ P x) (xs : List α) (c : ℕ) :
    Closed (collect f xs c).1 ↔ ∀ x ∈ xs, P x := by
  induction xs generalizing c with
  | nil => exact iff_of_true closed_nil fun _ h ↦ absurd h List.not_mem_nil
  | cons x xs ih =>
      rw [collect, (hf x c).closed_append (collect_spread hf xs _), hP, ih, List.forall_mem_cons]

theorem exists_of_mem_collect {xs : List α} {c : ℕ} {g : ParsedFilter}
    (h : g ∈ (collect f xs c).1) : ∃ x ∈ xs, ∃ c', g ∈ (f x c').1 := by
  induction xs generalizing c with
  | nil => exact absurd h List.not_mem_nil
  | cons x xs ih =>
      rcases List.mem_append.mp h with h | h
      · exact ⟨x, List.mem_cons_self, c, h⟩
      · obtain ⟨y, hy, c', hg⟩ := ih h
        exact ⟨y, List.mem_cons_of_mem x hy, c', hg⟩

theorem exists_subset_collect {xs : List α} {x : α} (h : x ∈ xs) (c : ℕ) :
    ∃ c', (f x c').1 ⊆ (collect f xs c).1 := by
  induction xs generalizing c with
  | nil => exact absurd h List.not_mem_nil
  | cons y xs ih =>
      rcases List.mem_cons.mp h with rfl | h
      · exact ⟨c, fun g hg ↦ List.mem_append_left _ hg⟩
      · obtain ⟨c', hc'⟩ := ih h (f y c).2
        exact ⟨c', fun g hg ↦ List.mem_append_right _ (hc' hg)⟩

end Collect

/-! ## Leaves -/

/-- A visited leaf. -/
structure Leaf where
  field : String
  op : String
  criteria : Json

/-- `{field: {op: criteria}}`. -/
def leafEntry (field op : String) (criteria : List (String × Json)) : Json :=
  .object [(field, .object [(op, .object criteria)])]

/-- The truth of a match, for that of its values, of its text and of its value. -/
def matchTruth (any : List Json → Bool) (text : String → Bool) (value : Json → Bool)
    (criteria : Json) : Bool :=
  match (criteria.get "any").bind Json.asArray with
  | some vs => any vs
  | none =>
    match (criteria.get "text").bind Json.asStr with
    | some t => text t
    | none => (criteria.get "value").any value

/-- The leaves of an entry that is no group. -/
def fieldLeaves (obj : List (String × Json)) : List Leaf :=
  obj.flatMap fun (field, fieldFilters) ↦
    match fieldFilters with
    | .object ops => ops.map fun (op, criteria) ↦ ⟨field, op, criteria⟩
    | _ => []

mutual

def entryLeaves : Json → List Leaf
  | .object obj =>
    if containsKey "and" obj || containsKey "or" obj then
      leavesAt "and" obj ++ leavesAt "or" obj
    else fieldLeaves obj
  | _ => []

def subfilterLeaves : List Json → List Leaf
  | [] => []
  | entry :: entries => entryLeaves entry ++ subfilterLeaves entries

/-- The leaves of the array under a key. -/
def leavesAt (key : String) : List (String × Json) → List Leaf
  | [] => []
  | (k, v) :: entries => if k = key then arrayLeaves v else leavesAt key entries

def arrayLeaves : Json → List Leaf
  | .array entries => subfilterLeaves entries
  | _ => []

end

/-- The leaves that `parse_conditions` visits, in its order. -/
def visitedLeaves : Json → List Leaf
  | .object obj => leavesAt "and" obj ++ leavesAt "or" obj
  | _ => []

/-- The filter of a leaf, unless it is dropped. -/
def leafFilter (env : NumberEnv) (l : Leaf) (c : ℕ) : List ParsedFilter × ℕ :=
  ((buildFilter env l.field l.op l.criteria c).1.toList,
    (buildFilter env l.field l.op l.criteria c).2)

/-- The filters of the leaves, without those that are dropped. -/
def leafFilters (env : NumberEnv) : List Leaf → ℕ → List ParsedFilter × ℕ :=
  collect (leafFilter env)

theorem leafFilters_append (env : NumberEnv) (ls ls' : List Leaf) (c : ℕ) :
    leafFilters env (ls ++ ls') c =
      ((leafFilters env ls c).1 ++ (leafFilters env ls' (leafFilters env ls c).2).1,
        (leafFilters env ls' (leafFilters env ls c).2).2) := collect_append ls ls' c

theorem leafFilters_spread (env : NumberEnv) (ls : List Leaf) (c : ℕ) :
    Spread c (leafFilters env ls c).2 (leafFilters env ls c).1 :=
  collect_spread (fun l c ↦ (filter_spread env l.field c l.op l.criteria).1) ls c

theorem leafFilters_closed (env : NumberEnv) (ls : List Leaf) (c : ℕ) :
    Closed (leafFilters env ls c).1 ↔ ∀ l ∈ ls, geoConverts env l.op l.criteria :=
  collect_closed (fun l c ↦ (filter_spread env l.field c l.op l.criteria).1)
    (fun l c ↦ (filter_spread env l.field c l.op l.criteria).2) ls c

/-! ## The text of a leaf -/

/-- A name that starts with the field, and is one `$name` when the field has no other
characters than names have. -/
structure NamedAfter (field name : String) : Prop where
  starts : field.toList <+: name.toList
  isName : (∀ c ∈ field.toList, isNameChar c = true) → IsName name

theorem isNameChar_of_mem_natRepr {n : ℕ} {c : Char} (h : c ∈ n.repr.toList) :
    isNameChar c = true := by
  have halnum : c.isAlphanum = true := by
    rw [Char.isAlphanum, isDigit_of_mem_natRepr h, Bool.or_true]
  rw [isNameChar, halnum]
  rfl

theorem namedAfter_paramName (field : String) (n : ℕ) : NamedAfter field (paramName field n) where
  starts := by
    rw [toList_paramName]
    exact List.prefix_append _ _
  isName hfield := by
    rw [IsName, toList_paramName]
    refine ⟨by simp, fun c hc ↦ ?_⟩
    rcases List.mem_append.mp hc with hc | hc
    · exact hfield c hc
    · rcases List.mem_cons.mp hc with rfl | hc
      · decide
      · exact isNameChar_of_mem_natRepr hc

theorem NamedAfter.role {field name role : String} (h : NamedAfter field name)
    (hrole : role ∈ roles) : NamedAfter field (name ++ "_" ++ role) where
  starts := by
    rw [String.toList_append, String.toList_append, List.append_assoc]
    exact h.starts.trans (List.prefix_append _ _)
  isName hfield := by
    obtain ⟨hne, hname⟩ := h.isName hfield
    have hroles : roles.all (fun r ↦ r.toList.all isNameChar) = true := by decide
    have hchars := List.all_eq_true.mp (List.all_eq_true.mp hroles role hrole)
    rw [IsName, String.toList_append, String.toList_append]
    refine ⟨by simp, fun c hc ↦ ?_⟩
    rcases List.mem_append.mp hc with hc | hc
    · rcases List.mem_append.mp hc with hc | hc
      · exact hname c hc
      · rw [List.mem_singleton.mp hc]
        decide
    · exact hchars c hc

/-- A clause about a field: one of its names is the field's, and read as text it has no
others than its references when the field has no other characters than names have. -/
structure Written (field : String) (q : Query) : Prop where
  named : ∃ name ∈ q.refs, field.toList <+: name.toList
  shows : (∀ c ∈ field.toList, isNameChar c = true) → q.Shows

section Clauses

variable {field : String} {q : Query}

/-- `@f:` and a bracket before a query. -/
theorem shows_field (hfield : ∀ c ∈ field.toList, isNameChar c = true) {opening : String}
    (hopening : '$' ∉ opening.toList) (hq : q.Shows) :
    Query.Shows (.lit "@" :: .lit field :: .lit opening :: q) :=
  ((hq.lit hopening).lit (dollar_notMem hfield)).lit (by decide)

theorem shows_last (hq : q.Shows) {s : String} (hs : closes s = true) :
    Query.Shows (q ++ [.lit s]) := hq.append hs Query.shows_nil

theorem Written.tagClause (h : Written field q) : Written field (tagClause field q) where
  named := by
    rw [refs_tagClause]
    exact h.named
  shows hfield := shows_field hfield (by decide) (shows_last (h.shows hfield) (by decide))

theorem Written.group (h : Written field q) : Written field ([.lit "("] ++ q ++ [.lit ")"]) where
  named := by simpa using h.named
  shows hfield := (shows_last (h.shows hfield) (by decide)).lit (by decide)

theorem Written.neverClause (h : Written field q) : Written field (neverClause q) where
  named := by
    obtain ⟨name, hname, hstarts⟩ := h.named
    rw [refs_neverClause]
    exact ⟨name, List.mem_append_left _ hname, hstarts⟩
  shows hfield := by
    have hq := h.shows hfield
    have htwice := shows_last (hq.append (by decide : closes " -" = true) hq)
      (by decide : closes ")" = true)
    simpa [Redis.neverClause] using htwice.lit (by decide : '$' ∉ "(".toList)

theorem Written.join {sep : String} (hsep : closes sep = true) {qs : List Query} (hne : qs ≠ [])
    (h : ∀ q ∈ qs, Written field q) : Written field (Query.join sep qs) where
  named := by
    obtain ⟨q, hq⟩ := List.exists_mem_of_ne_nil qs hne
    obtain ⟨name, hname, hstarts⟩ := (h q hq).named
    rw [Query.refs_join]
    exact ⟨name, List.mem_flatMap.mpr ⟨q, hq, hname⟩, hstarts⟩
  shows hfield := Query.shows_join hsep fun q hq ↦ (h q hq).shows hfield

variable {p : String} (hp : NamedAfter field p)
include hp

theorem written_ref : Written field [.ref p] where
  named := ⟨p, List.mem_singleton_self p, hp.starts⟩
  shows hfield := Query.shows_ref (hp.isName hfield)

theorem written_textClause : Written field (textClause field p) where
  named := ⟨p, List.mem_singleton_self p, hp.starts⟩
  shows hfield :=
    shows_field hfield (by decide) (shows_last (Query.shows_ref (hp.isName hfield)) (by decide))

theorem written_pointClause : Written field (pointClause field p) where
  named := ⟨p, List.mem_cons_self, hp.starts⟩
  shows hfield := by
    have hshows := Query.shows_ref (hp.isName hfield)
    exact shows_field hfield (by decide)
      (hshows.append (by decide) (shows_last hshows (by decide)))

omit hp

theorem written_geoClause {lon lat radius : String} (hlon : NamedAfter field lon)
    (hlat : NamedAfter field lat) (hradius : NamedAfter field radius) :
    Written field (geoClause field lon lat radius) where
  named := ⟨lon, List.mem_cons_self, hlon.starts⟩
  shows hfield := shows_field hfield (by decide) <|
    (Query.shows_ref (hlon.isName hfield)).append (by decide) <|
      (Query.shows_ref (hlat.isName hfield)).append (by decide) <|
        shows_last (Query.shows_ref (hradius.isName hfield)) (by decide)

/-! The ends of an interval are references or literals. -/

theorem Bound.shows {b : Bound} (hb : IsName b.parameter) :
    (∀ e ∈ b.lower, e.Shows) ∧ ∀ e ∈ b.upper, e.Shows := by
  have hloose := Query.shows_ref hb
  have hstrict := hloose.lit (by decide : '$' ∉ "(".toList)
  obtain ⟨parameter, operator⟩ := b
  cases operator <;> simp [Bound.lower, Bound.upper, hloose, hstrict]

theorem shows_endsOr {inf : String} (hinf : '$' ∉ inf.toList) {ends : List Query}
    (h : ∀ e ∈ ends, e.Shows) : ∀ e ∈ endsOr inf ends, e.Shows := by
  rw [endsOr]
  split_ifs
  · simpa using Query.shows_nil.lit hinf
  · exact h

theorem written_render {bounds : List Bound} (hbounds : ∀ b ∈ bounds, NamedAfter field b.parameter)
    (h : render field bounds = some q) : Written field q := by
  refine ⟨?_, fun hfield ↦ ?_⟩
  · have hne : bounds ≠ [] := by
      rintro rfl
      cases h
    obtain ⟨b, hb⟩ := List.exists_mem_of_ne_nil bounds hne
    exact ⟨b.parameter, (mem_refs_render field h _).mpr (List.mem_map_of_mem hb),
      (hbounds b hb).starts⟩
  · have hends := fun b hb ↦ Bound.shows ((hbounds b hb).isName hfield)
    rw [render] at h
    split_ifs at h
    cases h
    refine Query.shows_join (by decide) fun clause hclause ↦ ?_
    obtain ⟨lo, hlo, hclause⟩ := List.mem_flatMap.mp hclause
    obtain ⟨hi, hhi, rfl⟩ := List.mem_map.mp hclause
    have hlo := shows_endsOr (by decide) (fun e he ↦ ?_) lo hlo
    · have hhi := shows_endsOr (by decide) (fun e he ↦ ?_) hi hhi
      · have hboth := shows_last (hlo.append (by decide : closes " " = true) hhi)
          (by decide : closes "]" = true)
        simpa [interval] using shows_field hfield (by decide : '$' ∉ ":[".toList) hboth
      · obtain ⟨b, hb, hupper⟩ := List.mem_filterMap.mp he
        exact (hends b hb).2 e hupper
    · obtain ⟨b, hb, hlower⟩ := List.mem_filterMap.mp he
      exact (hends b hb).1 e hlower

end Clauses

section Builders

variable (env : NumberEnv) (field : String) (c : ℕ)

theorem namedAfter_of_mem_numbered {α : Type} {xs : List α} {e : String × α}
    (h : e ∈ numbered field c xs) : NamedAfter field e.1 := by
  obtain ⟨x, -, rfl⟩ := List.mem_map.mp h
  exact namedAfter_paramName field x.2

theorem written_matchAny (any : List Json) :
    Written field (buildMatchAnyFilter field any c).1.1 := by
  rw [buildMatchAnyFilter]
  split_ifs with hints
  · refine Written.group (.join (by decide) (fun hnil ↦ ?_) fun clause hclause ↦ ?_)
    · obtain ⟨hany, hall⟩ := Bool.and_eq_true_iff.mp hints
      have hne : any ≠ [] := by
        rintro rfl
        cases hany
      have hvalues := filterMap_ne_nil hne fun v hv ↦ List.all_eq_true.mp hall v hv
      refine numbered_ne_nil field c hvalues ?_
      rw [List.map_eq_nil_iff.mp hnil, List.map_nil]
    · obtain ⟨e, he, rfl⟩ := List.mem_map.mp hclause
      exact written_pointClause (namedAfter_of_mem_numbered field c he)
  · dsimp only
    split_ifs with hempty
    · exact (written_ref (namedAfter_paramName field c)).tagClause.neverClause
    · refine Written.tagClause (.join (by decide) (fun hnil ↦ ?_) fun clause hclause ↦ ?_)
      · exact hempty (by rw [hnil]; rfl)
      · obtain ⟨e, he, rfl⟩ := List.mem_map.mp hclause
        exact written_ref (namedAfter_of_mem_numbered field c he)

theorem written_text (text : String) : Written field (buildTextFilter field text c).1.1 := by
  have htext := written_textClause (namedAfter_paramName field c)
  rw [buildTextFilter]
  split_ifs
  · exact htext.neverClause
  · exact htext

theorem written_exactMatch {criteria : Json} {f : ParsedFilter}
    (h : (buildExactMatchFilter field criteria c).1 = some f) : Written field f.1 := by
  have hname := namedAfter_paramName field c
  rw [buildExactMatchFilter] at h
  split at h
  · cases h
  · dsimp only at h
    split at h
    · cases h
      exact (written_ref hname).tagClause
    · split at h
      · cases h
        exact (written_ref hname).tagClause
      · split at h
        · cases h
          exact written_pointClause hname
        · obtain ⟨v, -, rfl⟩ := Option.map_eq_some_iff.mp h
          exact written_pointClause hname

theorem written_range {criteria : Json} {f : ParsedFilter}
    (h : (buildRangeFilter env field criteria c).1 = some f) : Written field f.1 := by
  obtain ⟨q, hq, rfl⟩ := Option.map_eq_some_iff.mp h
  refine written_render (fun b hb ↦ ?_) hq
  obtain ⟨e, he, rfl⟩ := List.mem_map.mp hb
  have hmem := (rangeBounds_sublist env (paramName field c) criteria).subset
    (List.mem_map_of_mem he)
  obtain ⟨k, hk, hparameter⟩ := List.mem_map.mp hmem
  rw [← hparameter]
  exact (namedAfter_paramName field c).role (mem_roles_of_rangeKeys hk)

theorem written_geo {criteria : Json} {f : ParsedFilter}
    (h : (buildGeoFilter env field criteria c).1 = some f) : Written field f.1 := by
  have hrole : ∀ role ∈ roles, NamedAfter field (paramName field c ++ ("_" ++ role)) := by
    intro role hrole
    rw [← String.append_assoc]
    exact (namedAfter_paramName field c).role hrole
  rw [buildGeoFilter] at h
  obtain ⟨lon, -, h⟩ := Option.bind_eq_some_iff.mp h
  obtain ⟨lat, -, h⟩ := Option.bind_eq_some_iff.mp h
  obtain ⟨radius, -, h⟩ := Option.bind_eq_some_iff.mp h
  cases h
  exact written_geoClause (hrole "lon" (by decide)) (hrole "lat" (by decide))
    (hrole "radius" (by decide))

/-- The filter of a leaf is written about its field. -/
theorem written_filter {op : String} {criteria : Json} {f : ParsedFilter}
    (h : (buildFilter env field op criteria c).1 = some f) : Written field f.1 := by
  unfold buildFilter at h
  split at h
  · split at h
    · next any _ =>
        cases h
        exact written_matchAny field c any
    · split at h
      · next text _ =>
          cases h
          exact written_text field c text
      · exact written_exactMatch field c h
  · exact written_range env field c h
  · exact written_geo env field c h
  · cases h

end Builders

/-! ## Groups -/

/-- Built filters with the names and values of the filters of some leaves. -/
structure Agrees (built leaves : List ParsedFilter × ℕ) : Prop where
  counter : built.2 = leaves.2
  refs : allRefs built.1 = allRefs leaves.1
  params : allParams built.1 = allParams leaves.1
  shows : (∀ f ∈ leaves.1, f.1.Shows) → ∀ f ∈ built.1, f.1.Shows

theorem Agrees.refl (fs : List ParsedFilter × ℕ) : Agrees fs fs := ⟨rfl, rfl, rfl, id⟩

theorem refs_groupClause (sep : String) (fs : Option (List ParsedFilter)) :
    (groupClause sep fs).flatMap Query.refs = allRefs (fs.getD []) := by
  rcases fs with _ | _ | ⟨f, fs⟩
  · rfl
  · rfl
  · rw [groupClause, List.flatMap_singleton, Query.refs_append, Query.refs_append,
      Query.refs_join, List.flatMap_map]
    exact List.append_nil _

theorem groupClause_eq_nil {sep : String} {fs : Option (List ParsedFilter)} :
    groupClause sep fs = [] ↔ fs.getD [] = [] := by
  rcases fs with _ | _ | ⟨f, fs⟩
  · exact iff_of_true rfl rfl
  · exact iff_of_true rfl rfl
  · exact iff_of_false (List.cons_ne_nil _ _) (List.cons_ne_nil _ _)

/-- Merging the maps of filters with different names lists their parameters. -/
theorem foldl_extend {fs : List ParsedFilter} {ps : Params}
    (h : (ps.names ++ (allParams fs).names).Nodup) :
    (fs.map Prod.snd).foldl Params.extend ps = ps ++ allParams fs := by
  induction fs generalizing ps with
  | nil => exact (List.append_nil ps).symm
  | cons f fs ih =>
      have hsplit : allParams (f :: fs) = f.2 ++ allParams fs := rfl
      rw [hsplit, Params.names_append, ← List.append_assoc] at h
      rw [List.map_cons, List.foldl_cons, Params.extend_of_nodup, ih, hsplit, List.append_assoc]
      · rwa [Params.names_append]
      · rw [Params.names_append]
        exact (List.nodup_append.mp h).1

/-- A group has the references and the parameters of its children. -/
theorem buildCondition_toList {andFilters orFilters : Option (List ParsedFilter)}
    (h : (allParams (andFilters.getD [] ++ orFilters.getD [])).names.Nodup) :
    allRefs (buildCondition andFilters orFilters).toList =
        allRefs (andFilters.getD [] ++ orFilters.getD []) ∧
      allParams (buildCondition andFilters orFilters).toList =
        allParams (andFilters.getD [] ++ orFilters.getD []) := by
  rw [buildCondition]
  split_ifs with hempty
  · rw [List.isEmpty_iff, List.append_eq_nil_iff, groupClause_eq_nil, groupClause_eq_nil] at hempty
    rw [hempty.1, hempty.2]
    exact ⟨rfl, rfl⟩
  · rw [Option.toList_some, allRefs_singleton, allParams_singleton]
    refine ⟨?_, ?_⟩
    · rw [Query.refs_join, List.flatMap_append, refs_groupClause, refs_groupClause, allRefs_append]
    · exact foldl_extend h

theorem groupClause_shows {sep : String} (hsep : closes sep = true)
    {fs : Option (List ParsedFilter)} (h : ∀ f ∈ fs.getD [], f.1.Shows) :
    ∀ q ∈ groupClause sep fs, q.Shows := by
  rcases fs with _ | _ | ⟨f, fs⟩
  · exact fun q hq ↦ absurd hq List.not_mem_nil
  · exact fun q hq ↦ absurd hq List.not_mem_nil
  · intro q hq
    rw [List.mem_singleton.mp hq]
    refine (shows_last (Query.shows_join hsep fun q hq ↦ ?_) (by decide)).lit (by decide)
    obtain ⟨g, hg, rfl⟩ := List.mem_map.mp hq
    exact h g hg

theorem buildCondition_shows {andFilters orFilters : Option (List ParsedFilter)}
    (h : ∀ f ∈ andFilters.getD [] ++ orFilters.getD [], f.1.Shows) :
    ∀ f ∈ (buildCondition andFilters orFilters).toList, f.1.Shows := by
  obtain ⟨hand, hor⟩ := List.forall_mem_append.mp h
  rw [buildCondition]
  split_ifs
  · exact fun f hf ↦ absurd hf List.not_mem_nil
  · intro f hf
    rw [List.mem_singleton.mp hf]
    exact Query.shows_join (by decide) (List.forall_mem_append.mpr
      ⟨groupClause_shows (by decide) hand, groupClause_shows (by decide) hor⟩)

variable (env : NumberEnv)

/-- Both arrays of a group, built one after the other. -/
theorem Agrees.group {andFilters orFilters : Option (List ParsedFilter)} {andLeaves orLeaves :
    List Leaf} {c c' c'' : ℕ}
    (hand : Agrees (andFilters.getD [], c') (leafFilters env andLeaves c))
    (hor : Agrees (orFilters.getD [], c'') (leafFilters env orLeaves c')) :
    Agrees ((buildCondition andFilters orFilters).toList, c'')
      (leafFilters env (andLeaves ++ orLeaves) c) := by
  have hc : c' = (leafFilters env andLeaves c).2 := hand.counter
  subst hc
  have happend := leafFilters_append env andLeaves orLeaves c
  have hparams : allParams (andFilters.getD [] ++ orFilters.getD []) =
      allParams (leafFilters env (andLeaves ++ orLeaves) c).1 := by
    rw [happend, allParams_append, allParams_append]
    exact congrArg₂ _ hand.params hor.params
  have hrefs : allRefs (andFilters.getD [] ++ orFilters.getD []) =
      allRefs (leafFilters env (andLeaves ++ orLeaves) c).1 := by
    rw [happend, allRefs_append, allRefs_append]
    exact congrArg₂ _ hand.refs hor.refs
  have hnodup : (allParams (andFilters.getD [] ++ orFilters.getD [])).names.Nodup :=
    hparams ▸ (leafFilters_spread env _ c).nodup
  obtain ⟨hr, hp⟩ := buildCondition_toList hnodup
  refine ⟨by rw [happend]; exact hor.counter, hr.trans hrefs, hp.trans hparams, fun hshows ↦ ?_⟩
  rw [happend, List.forall_mem_append] at hshows
  exact buildCondition_shows (List.forall_mem_append.mpr ⟨hand.shows hshows.1, hor.shows hshows.2⟩)

/-- One part after another. -/
theorem Agrees.append {fs gs : List ParsedFilter} {ls ls' : List Leaf} {c c' c'' : ℕ}
    (hf : Agrees (fs, c') (leafFilters env ls c)) (hg : Agrees (gs, c'') (leafFilters env ls' c')) :
    Agrees (fs ++ gs, c'') (leafFilters env (ls ++ ls') c) := by
  have hc : c' = (leafFilters env ls c).2 := hf.counter
  subst hc
  rw [leafFilters_append]
  refine ⟨hg.counter, ?_, ?_, fun hshows ↦ ?_⟩
  · rw [allRefs_append, allRefs_append]
    exact congrArg₂ _ hf.refs hg.refs
  · rw [allParams_append, allParams_append]
    exact congrArg₂ _ hf.params hg.params
  · rw [List.forall_mem_append] at hshows ⊢
    exact ⟨hf.shows hshows.1, hg.shows hshows.2⟩

theorem buildLeaves_eq (obj : List (String × Json)) (c : ℕ) :
    buildLeaves env obj c = leafFilters env (fieldLeaves obj) c := by
  rw [buildLeaves, fieldLeaves, leafFilters, ← collect_flatMap]
  congr 1
  funext ⟨field, fieldFilters⟩ c
  cases fieldFilters with
  | object ops =>
      exact (collect_map (f := leafFilter env) (fun e ↦ (⟨field, e.1, e.2⟩ : Leaf)) ops c).symm
  | _ => rfl

mutual

theorem buildEntry_agrees (entry : Json) (c : ℕ) :
    Agrees (buildEntry env entry c) (leafFilters env (entryLeaves entry) c) := by
  match entry with
  | .object obj =>
      rw [buildEntry, entryLeaves]
      split_ifs
      · exact .group env (buildArrayAt_agrees "and" obj c) (buildArrayAt_agrees "or" obj _)
      · rw [buildLeaves_eq]
        exact .refl _
  | .null => exact .refl _
  | .bool _ => exact .refl _
  | .number _ => exact .refl _
  | .string _ => exact .refl _
  | .array _ => exact .refl _

theorem buildSubfilters_agrees (entries : List Json) (c : ℕ) :
    Agrees (buildSubfilters env entries c) (leafFilters env (subfilterLeaves entries) c) := by
  match entries with
  | [] => exact .refl _
  | entry :: entries =>
      rw [buildSubfilters, subfilterLeaves]
      exact .append env (buildEntry_agrees entry c) (buildSubfilters_agrees entries _)

theorem buildArrayAt_agrees (key : String) (obj : List (String × Json)) (c : ℕ) :
    Agrees ((buildArrayAt env key obj c).1.getD [], (buildArrayAt env key obj c).2)
      (leafFilters env (leavesAt key obj) c) := by
  match obj with
  | [] => exact .refl _
  | (k, v) :: entries =>
      rw [buildArrayAt, leavesAt]
      split_ifs
      · exact buildArray_agrees v c
      · exact buildArrayAt_agrees key entries c

theorem buildArray_agrees (v : Json) (c : ℕ) :
    Agrees ((buildArray env v c).1.getD [], (buildArray env v c).2)
      (leafFilters env (arrayLeaves v) c) := by
  match v with
  | .array entries => exact buildSubfilters_agrees entries c
  | .null => exact .refl _
  | .bool _ => exact .refl _
  | .number _ => exact .refl _
  | .string _ => exact .refl _
  | .object _ => exact .refl _

end

/-- The filter of a conditions value, from its leaves. -/
theorem parseConditions_agrees {conditions : Json} {filter : ParsedFilter}
    (h : parseConditions env conditions = some filter) :
    filter.1.refs = allRefs (leafFilters env (visitedLeaves conditions) 0).1 ∧
      filter.2 = allParams (leafFilters env (visitedLeaves conditions) 0).1 ∧
        ((∀ f ∈ (leafFilters env (visitedLeaves conditions) 0).1, f.1.Shows) →
          filter.1.Shows) := by
  unfold parseConditions at h
  split at h
  · next obj =>
      split_ifs at h
      have hagrees := Agrees.group env (buildArrayAt_agrees env "and" obj 0)
        (buildArrayAt_agrees env "or" obj _)
      have hfilter : buildCondition (buildArrayAt env "and" obj 0).1
          (buildArrayAt env "or" obj (buildArrayAt env "and" obj 0).2).1 = some filter := h
      rw [hfilter, Option.toList_some] at hagrees
      have hrefs := hagrees.refs
      have hparams := hagrees.params
      rw [allRefs_singleton] at hrefs
      rw [allParams_singleton] at hparams
      exact ⟨hrefs, hparams, fun h ↦ hagrees.shows h filter (List.mem_singleton_self _)⟩
  · cases h

/-! ## Hygiene -/

/-- Whether a leaf gives a clause at all. -/
def yields (op : String) (criteria : Json) : Bool :=
  match op with
  | "match" =>
    ((criteria.get "any").bind Json.asArray).isSome ||
      ((criteria.get "text").bind Json.asStr).isSome ||
      (criteria.get "value").any fun v ↦
        v.asBool.isSome || v.asStr.isSome || v.asI64.isSome || v.asF64.isSome
  | "range" => rangeKeys.any fun k ↦ (criteria.get k.1).any fun v ↦ (toNumber env v).isSome
  | "geo" => ["lon", "lat", "radius"].all fun key ↦ (criteria.get key).isSome
  | _ => false

theorem yields_other {op : String} (hmatch : op ≠ "match") (hrange : op ≠ "range")
    (hgeo : op ≠ "geo") (criteria : Json) : yields env op criteria = false := by
  unfold yields
  split
  · exact absurd rfl hmatch
  · exact absurd rfl hrange
  · exact absurd rfl hgeo
  · rfl

theorem isSome_exactMatch (field : String) (criteria : Json) (c : ℕ) :
    (buildExactMatchFilter field criteria c).1.isSome = (criteria.get "value").any fun v ↦
      v.asBool.isSome || v.asStr.isSome || v.asI64.isSome || v.asF64.isSome := by
  rw [buildExactMatchFilter]
  cases criteria.get "value" with
  | none => rfl
  | some v =>
      rw [Option.any_some]
      dsimp only
      cases v.asBool <;> cases v.asStr <;> cases v.asI64 <;> cases v.asF64 <;> rfl

theorem isSome_range (field : String) (criteria : Json) (c : ℕ) :
    (buildRangeFilter env field criteria c).1.isSome =
      rangeKeys.any fun k ↦ (criteria.get k.1).any fun v ↦ (toNumber env v).isSome := by
  have hrender : ∀ bounds, (render field bounds).isSome = !bounds.isEmpty := by
    intro bounds
    rw [render]
    cases bounds <;> rfl
  rw [buildRangeFilter, Option.isSome_map, hrender, List.isEmpty_map, rangeBounds]
  rw [Bool.eq_iff_iff, Bool.not_eq_true', List.isEmpty_eq_false_iff, ne_eq,
    List.filterMap_eq_nil_iff, List.any_eq_true]
  push Not
  refine exists_congr fun k ↦ and_congr_right fun _ ↦ ?_
  cases criteria.get k.1 with
  | none => exact iff_of_false (fun h ↦ h rfl) Bool.false_ne_true
  | some v =>
      simp only [Option.any_some, Option.bind_eq_bind, Option.bind_some]
      cases toNumber env v with
      | none => exact iff_of_false (fun h ↦ h rfl) Bool.false_ne_true
      | some w => exact iff_of_true (Option.some_ne_none _) rfl

theorem isSome_geo (field : String) (criteria : Json) (c : ℕ) :
    (buildGeoFilter env field criteria c).1.isSome =
      ["lon", "lat", "radius"].all fun key ↦ (criteria.get key).isSome := by
  rw [buildGeoFilter]
  simp only [List.all_cons, List.all_nil, Bool.and_true]
  cases criteria.get "lon" <;> cases criteria.get "lat" <;> cases criteria.get "radius" <;> rfl

/-- The builder gives a filter for exactly the leaves that yield one. -/
theorem isSome_buildFilter (field op : String) (criteria : Json) (c : ℕ) :
    (buildFilter env field op criteria c).1.isSome = yields env op criteria := by
  unfold buildFilter
  split
  · rw [yields]
    cases (criteria.get "any").bind Json.asArray with
    | some any => rfl
    | none =>
        cases (criteria.get "text").bind Json.asStr with
        | some text => rfl
        | none => exact isSome_exactMatch field criteria c
  · exact isSome_range env field criteria c
  · exact isSome_geo env field criteria c
  · next hmatch hrange hgeo => exact (yields_other env hmatch hrange hgeo criteria).symm

/-- The names of a filter that is built for a conditions value. -/
structure Hygienic (conditions : Json) (filter : ParsedFilter) : Prop where
  /-- Every `$name` of the text is bound. -/
  bound : ∀ name ∈ textNames filter.1.text, name ∈ filter.2.names
  /-- So is every reference that the builder writes, whatever the text reads as. -/
  written : ∀ name ∈ filter.1.refs, name ∈ filter.2.names
  /-- Every name that is bound occurs in the text. -/
  used : ∀ name ∈ filter.2.names, name ∈ textNames filter.1.text
  /-- No two leaves share a name. -/
  apart : (leafFilters env (visitedLeaves conditions) 0).1.Pairwise
    fun f g ↦ f.2.names.Disjoint g.2.names
  /-- Merging the maps of the leaves loses nothing. -/
  merged : filter.2 = (leafFilters env (visitedLeaves conditions) 0).1.flatMap Prod.snd
  /-- No name is one the command binds itself. -/
  own : ∀ algorithm hybridPolicy, ∀ name ∈ filter.2.names,
    name ∉ ftSearchParamNames algorithm hybridPolicy none

theorem ftSearchParamNames_subset (algorithm hybridPolicy : String) :
    ftSearchParamNames algorithm hybridPolicy none ⊆ knnNames := by
  rw [ftSearchParamNames]
  split_ifs <;> decide

/-- Different filters of a list without repeated names have different names. -/
theorem pairwise_disjoint {fs : List ParsedFilter} (h : (allParams fs).names.Nodup) :
    fs.Pairwise fun f g ↦ f.2.names.Disjoint g.2.names := by
  rw [allParams, Params.names, List.map_flatMap, List.nodup_flatMap] at h
  exact h.2

/-- The filters of leaves whose fields are made of the characters of names. -/
theorem leafFilters_shows {ls : List Leaf} (h : ∀ l ∈ ls, yields env l.op l.criteria = true →
    ∀ c ∈ l.field.toList, isNameChar c = true) (c : ℕ) :
    ∀ f ∈ (leafFilters env ls c).1, f.1.Shows := by
  intro f hf
  obtain ⟨l, hl, c', hf⟩ := exists_of_mem_collect hf
  have hbuilt := Option.mem_toList.mp hf
  have hyields : yields env l.op l.criteria = true := by
    rw [← isSome_buildFilter env l.field l.op l.criteria c', hbuilt]
    rfl
  exact (written_filter env l.field c' hbuilt).shows (h l hl hyields)

/-- A leaf that yields a clause has a reference named after its field. -/
theorem exists_ref_of_yields {ls : List Leaf} {l : Leaf} (hl : l ∈ ls)
    (hyields : yields env l.op l.criteria = true) (c : ℕ) :
    ∃ name ∈ allRefs (leafFilters env ls c).1, l.field.toList <+: name.toList := by
  obtain ⟨c', hsub⟩ := exists_subset_collect (f := leafFilter env) hl c
  rw [← isSome_buildFilter env l.field l.op l.criteria c'] at hyields
  obtain ⟨f, hf⟩ := Option.isSome_iff_exists.mp hyields
  obtain ⟨name, hname, hstarts⟩ := (written_filter env l.field c' hf).named
  exact ⟨name, List.mem_flatMap.mpr ⟨f, hsub (Option.mem_toList.mpr hf), hname⟩, hstarts⟩

/-- A filter is hygienic exactly when every value of a geo leaf converts to a number and no
field of a leaf that yields a clause has characters that end a name. -/
theorem parseConditions_hygienic_iff {conditions : Json} {filter : ParsedFilter}
    (h : parseConditions env conditions = some filter) :
    Hygienic env conditions filter ↔ ∀ l ∈ visitedLeaves conditions,
      geoConverts env l.op l.criteria ∧
        (yields env l.op l.criteria = true → ∀ c ∈ l.field.toList, isNameChar c = true) := by
  obtain ⟨hrefs, hparams, hshows⟩ := parseConditions_agrees env h
  have hspread := leafFilters_spread env (visitedLeaves conditions) 0
  have hclosed := leafFilters_closed env (visitedLeaves conditions) 0
  constructor
  · intro hygienic l hl
    refine ⟨hclosed.mp (fun name hname ↦ ?_) l hl, fun hyields ↦ ?_⟩
    · rw [← hparams]
      exact hygienic.written name (hrefs ▸ hname)
    · obtain ⟨name, hname, hstarts⟩ := exists_ref_of_yields env hl hyields 0
      have htext := hygienic.used name (hygienic.written name (hrefs ▸ hname))
      exact fun c hc ↦ isNameChar_of_mem_textNames htext c (hstarts.subset hc)
  · intro hleaves
    have hbound := hclosed.mpr fun l hl ↦ (hleaves l hl).1
    have htext : textNames filter.1.text = filter.1.refs :=
      (hshows (leafFilters_shows env (fun l hl ↦ (hleaves l hl).2) 0)).textNames
    have hwritten : ∀ name ∈ filter.1.refs, name ∈ filter.2.names := fun name hname ↦ by
      rw [hparams]
      exact hbound name (hrefs ▸ hname)
    refine ⟨htext ▸ hwritten, hwritten, fun name hname ↦ ?_, pairwise_disjoint hspread.nodup,
      hparams, fun algorithm hybridPolicy name hname hmem ↦ ?_⟩
    · rw [htext, hrefs]
      exact hspread.used name (hparams ▸ hname)
    · have hnumbered := hspread.numbered name (hspread.used name (hparams ▸ hname))
      exact hnumbered.notMem_knnNames (ftSearchParamNames_subset algorithm hybridPolicy hmem)

/-- A geo leaf without a longitude that converts. -/
def geoWithoutLongitude : Json :=
  .object [("and", .array [.object [("loc", .object [("geo", .object
    [("lon", .null), ("lat", .ofNat 1), ("radius", .ofNat 2)])])]])]

/-- A field whose name goes on with a `$`. -/
def dollarField : Json :=
  .object [("and", .array [.object [("a $zz", .object [("match", .object
    [("value", .string "x")])])]])]

/-- The filter of the one refers to `$loc_0_lon`, the text of the other to `$zz`; neither is
bound. -/
theorem not_hygienic_geoWithoutLongitude :
    (∃ env filter, parseConditions env geoWithoutLongitude = some filter ∧
      "loc_0_lon" ∈ textNames filter.1.text ∧ "loc_0_lon" ∉ filter.2.names ∧
      ¬Hygienic env geoWithoutLongitude filter) ∧
    ∃ env filter, parseConditions env dollarField = some filter ∧
      String.ofList filter.1.text = "(@a $zz:\x7b$a $zz_0\x7d)" ∧
      "zz" ∈ textNames filter.1.text ∧ "zz" ∉ filter.2.names ∧
      ¬Hygienic env dollarField filter := by
  refine ⟨⟨noNumbers, _, rfl, by decide, by decide, fun hygienic ↦ ?_⟩,
    noNumbers, _, rfl, by decide, by decide, by decide, fun hygienic ↦ ?_⟩
  · exact absurd (hygienic.bound "loc_0_lon" (by decide)) (by decide)
  · exact absurd (hygienic.bound "zz" (by decide)) (by decide)

/-- A range and a geo leaf whose values are all numbers. -/
def rangeAndGeo : Json :=
  .object [("or", .array [
    .object [("price", .object [("range", .object
      [("gt", .ofNat 1), ("lte", .ofNat 9)])])],
    .object [("loc", .object [("geo", .object
      [("lon", .ofNat 3), ("lat", .ofNat 1), ("radius", .ofNat 2)])])]])]

theorem hygienic_rangeAndGeo :
    ∃ filter, parseConditions noNumbers rangeAndGeo = some filter ∧
      Hygienic noNumbers rangeAndGeo filter := by
  refine ⟨_, rfl, (parseConditions_hygienic_iff _ rfl).mpr fun l hl ↦ ?_⟩
  have hleaves : visitedLeaves rangeAndGeo = [⟨"price", "range", _⟩, ⟨"loc", "geo", _⟩] := rfl
  rw [hleaves, List.mem_cons, List.mem_singleton] at hl
  rcases hl with rfl | rfl
  · exact ⟨geoConverts_of_ne _ (by decide) _, fun _ ↦ List.all_eq_true.mp rfl⟩
  · refine ⟨?_, fun _ ↦ List.all_eq_true.mp rfl⟩
    intro _ lon lat radius hlon hlat hradius
    cases hlon
    cases hlat
    cases hradius
    decide

end VectorDbBenchmark.Redis
