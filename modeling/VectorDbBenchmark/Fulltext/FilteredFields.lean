import Mathlib.Data.Finset.Dedup
import VectorDbBenchmark.Redis.FilterBuilder

/-!
# The fields a filter touches

`filtered_fields` of `src/fulltext.rs` decides by a recursion of its own what is a group and what
is a field; the clauses that the Redis builder writes name no other field.
-/

namespace VectorDbBenchmark.Fulltext

open Redis

/-! ## Fields of the conditions -/

mutual

def walk : Json → List String
  | .array a => walkAll a
  | .object o =>
    if containsKey "and" o || containsKey "or" o then walkAt "and" o ++ walkAt "or" o
    else o.map Prod.fst
  | _ => []

def walkAll : List Json → List String
  | [] => []
  | e :: es => walk e ++ walkAll es

/-- The fields of the value under a key. -/
def walkAt (key : String) : List (String × Json) → List String
  | [] => []
  | (k, g) :: o => if k = key then walk g else walkAt key o

end

def filteredFields (conditions : Json) : Finset String := (walk conditions).toFinset

/-! ## Fields of a query -/

/-- The fields that the clauses of a query name, one after each `@`. -/
def namedFields : Query → List String
  | .lit s :: .lit field :: q =>
    if s = "@" then field :: namedFields q else namedFields (.lit field :: q)
  | _ :: q => namedFields q
  | [] => []

/-- A query of clauses whose fields are all in `P`, whatever stands around them. -/
inductive Names (P : String → Prop) : Query → Prop where
  | nil : Names P []
  | ref {q : Query} (name : String) : Names P q → Names P (.ref name :: q)
  | lit {q : Query} {s : String} : s ≠ "@" → Names P q → Names P (.lit s :: q)
  | field {q : Query} {field : String} : P field → Names P q →
      Names P (.lit "@" :: .lit field :: q)

namespace Names

variable {P Q : String → Prop} {q q' : Query}

theorem append (h : Names P q) (h' : Names P q') : Names P (q ++ q') := by
  induction h with
  | nil => exact h'
  | ref name _ ih => exact .ref name ih
  | lit hs _ ih => exact .lit hs ih
  | field hf _ ih => exact .field hf ih

theorem mono (h : Names P q) (hPQ : ∀ f, P f → Q f) : Names Q q := by
  induction h with
  | nil => exact .nil
  | ref name _ ih => exact .ref name ih
  | lit hs _ ih => exact .lit hs ih
  | field hf _ ih => exact .field (hPQ _ hf) ih

/-- Literals that open no clause. -/
theorem text {s : String} (hs : s ≠ "@") : Names P [.lit s] := .lit hs .nil

theorem join {sep : String} (hsep : sep ≠ "@") {qs : List Query} (h : ∀ q ∈ qs, Names P q) :
    Names P (Query.join sep qs) := by
  induction qs with
  | nil => exact .nil
  | cons q qs ih =>
      have hq := h q List.mem_cons_self
      have hqs := ih fun q' hq' ↦ h q' (List.mem_cons_of_mem q hq')
      cases qs with
      | nil =>
          rw [Query.join_singleton]
          exact hq
      | cons q' qs =>
          rw [Query.join_cons_cons]
          exact hq.append (.lit hsep hqs)

theorem of_mem_namedFields (h : Names P q) : ∀ f ∈ namedFields q, P f := by
  induction h with
  | nil =>
      intro f hf
      cases hf
  | ref name _ ih =>
      intro f hf
      rw [namedFields] at hf
      · exact ih f hf
      · intro s s' q' heq
        cases heq
  | @lit q s hs _ ih =>
      intro f hf
      match q with
      | [] => cases hf
      | .ref name :: q =>
          rw [namedFields] at hf
          · exact ih f hf
          · rintro s' s'' q' ⟨⟩ heq
            cases heq
      | .lit s' :: q =>
          rw [namedFields, if_neg hs] at hf
          exact ih f hf
  | field hf _ ih =>
      intro f hf'
      rw [namedFields, if_pos rfl] at hf'
      rcases List.mem_cons.mp hf' with rfl | hf'
      · exact hf
      · exact ih f hf'

end Names

/-! ## Leaves -/

section Leaves

variable {P : String → Prop} {field : String}

theorem names_tagClause (hf : P field) {value : Query} (h : Names P value) :
    Names P (tagClause field value) := by
  rw [tagClause, List.append_assoc]
  exact .field hf (.lit (by decide) (h.append (.text (by decide))))

theorem names_pointClause (hf : P field) (p : String) : Names P (pointClause field p) :=
  .field hf (.lit (by decide) (.ref p (.lit (by decide) (.ref p (.text (by decide))))))

theorem names_textClause (hf : P field) (p : String) : Names P (textClause field p) :=
  .field hf (.lit (by decide) (.ref p (.text (by decide))))

theorem names_geoClause (hf : P field) (lon lat radius : String) :
    Names P (geoClause field lon lat radius) :=
  .field hf (.lit (by decide) (.ref lon (.lit (by decide) (.ref lat (.lit (by decide)
    (.ref radius (.text (by decide))))))))

theorem names_neverClause {q : Query} (h : Names P q) : Names P (neverClause q) := by
  have hopen : Names P [.lit "("] := .text (by decide)
  have hminus : Names P [.lit " -"] := .text (by decide)
  exact (((hopen.append h).append hminus).append h).append (.text (by decide))

theorem names_ends {inf : String} (hinf : inf ≠ "@") {ends : List Query}
    (h : ∀ e ∈ ends, Names P e) : ∀ e ∈ endsOr inf ends, Names P e := by
  rw [endsOr]
  split_ifs
  · rw [List.forall_mem_singleton]
    exact .text hinf
  · exact h

theorem names_lower {b : Bound} {q : Query} (h : b.lower = some q) : Names P q := by
  rw [Bound.lower] at h
  split at h <;> cases h
  · exact .lit (by decide) (.ref _ .nil)
  · exact .ref _ .nil

theorem names_upper {b : Bound} {q : Query} (h : b.upper = some q) : Names P q := by
  rw [Bound.upper] at h
  split at h <;> cases h
  · exact .lit (by decide) (.ref _ .nil)
  · exact .ref _ .nil

theorem names_interval (hf : P field) {lo hi : Query} (hlo : Names P lo) (hhi : Names P hi) :
    Names P (interval field lo hi) := by
  have hopen : Names P [.lit "@", .lit field, .lit ":["] := .field hf (.text (by decide))
  exact (((hopen.append hlo).append (.text (by decide))).append hhi).append (.text (by decide))

theorem names_render (hf : P field) {bounds : List Bound} {q : Query}
    (h : render field bounds = some q) : Names P q := by
  rw [render] at h
  split_ifs at h
  cases h
  apply Names.join (by decide)
  intro q hq
  obtain ⟨lo, hlo, hq⟩ := List.mem_flatMap.mp hq
  obtain ⟨hi, hhi, rfl⟩ := List.mem_map.mp hq
  apply names_interval hf
  · refine names_ends (by decide) ?_ lo hlo
    intro e he
    obtain ⟨b, -, hb⟩ := List.mem_filterMap.mp he
    exact names_lower hb
  · refine names_ends (by decide) ?_ hi hhi
    intro e he
    obtain ⟨b, -, hb⟩ := List.mem_filterMap.mp he
    exact names_upper hb

theorem names_buildMatchAnyFilter (hf : P field) (any : List Json) (c : ℕ) :
    Names P (buildMatchAnyFilter field any c).1.1 := by
  rw [buildMatchAnyFilter]
  split_ifs with hints
  · have hopen : Names P [.lit "("] := .text (by decide)
    refine (hopen.append (.join (by decide) ?_)).append (.text (by decide))
    intro q hq
    obtain ⟨e, -, rfl⟩ := List.mem_map.mp hq
    exact names_pointClause hf e.1
  · dsimp only
    split_ifs
    · exact names_neverClause (names_tagClause hf (.ref _ .nil))
    · apply names_tagClause hf
      apply Names.join (by decide)
      intro q hq
      obtain ⟨e, -, rfl⟩ := List.mem_map.mp hq
      exact .ref e.1 .nil

theorem names_buildTextFilter (hf : P field) (text : String) (c : ℕ) :
    Names P (buildTextFilter field text c).1.1 := by
  rw [buildTextFilter]
  split_ifs
  · exact names_neverClause (names_textClause hf _)
  · exact names_textClause hf _

theorem names_buildExactMatchFilter (hf : P field) {criteria : Json} {c : ℕ} {filter : ParsedFilter}
    (h : (buildExactMatchFilter field criteria c).1 = some filter) : Names P filter.1 := by
  rw [buildExactMatchFilter] at h
  split at h
  · cases h
  · dsimp only at h
    split at h
    · cases h
      exact names_tagClause hf (.ref _ .nil)
    · split at h
      · cases h
        exact names_tagClause hf (.ref _ .nil)
      · split at h
        · cases h
          exact names_pointClause hf _
        · obtain ⟨x, -, rfl⟩ := Option.map_eq_some_iff.mp h
          exact names_pointClause hf _

theorem names_buildRangeFilter {env : NumberEnv} (hf : P field) {criteria : Json} {c : ℕ}
    {filter : ParsedFilter} (h : (buildRangeFilter env field criteria c).1 = some filter) :
    Names P filter.1 := by
  obtain ⟨q, hq, rfl⟩ := Option.map_eq_some_iff.mp h
  exact names_render hf hq

theorem names_buildGeoFilter {env : NumberEnv} (hf : P field) {criteria : Json} {c : ℕ}
    {filter : ParsedFilter} (h : (buildGeoFilter env field criteria c).1 = some filter) :
    Names P filter.1 := by
  obtain ⟨lon, -, h⟩ := Option.bind_eq_some_iff.mp h
  obtain ⟨lat, -, h⟩ := Option.bind_eq_some_iff.mp h
  obtain ⟨radius, -, h⟩ := Option.bind_eq_some_iff.mp h
  cases h
  exact names_geoClause hf _ _ _

/-- A leaf names its own field only, whatever its operation. -/
theorem names_buildFilter {env : NumberEnv} (hf : P field) {op : String} {criteria : Json} {c : ℕ}
    {filter : ParsedFilter} (h : (buildFilter env field op criteria c).1 = some filter) :
    Names P filter.1 := by
  unfold buildFilter at h
  split at h
  · split at h
    · cases h
      exact names_buildMatchAnyFilter hf _ c
    · split at h
      · cases h
        exact names_buildTextFilter hf _ c
      · exact names_buildExactMatchFilter hf h
  · exact names_buildRangeFilter hf h
  · exact names_buildGeoFilter hf h
  · cases h

end Leaves

/-! ## Groups -/

/-- Filters whose clauses name fields of `fields` only. -/
def NamesOf (fields : List String) (fs : List ParsedFilter) : Prop :=
  ∀ f ∈ fs, Names (· ∈ fields) f.1

namespace NamesOf

variable {fields fields' : List String} {fs gs : List ParsedFilter}

theorem append (h : NamesOf fields fs) (h' : NamesOf fields' gs) :
    NamesOf (fields ++ fields') (fs ++ gs) := by
  intro f hf
  rcases List.mem_append.mp hf with hf | hf
  · exact (h f hf).mono fun _ hfield ↦ List.mem_append_left fields' hfield
  · exact (h' f hf).mono fun _ hfield ↦ List.mem_append_right fields hfield

theorem nil : NamesOf fields [] := fun _ h ↦ absurd h List.not_mem_nil

theorem toList {f : Option ParsedFilter} (h : ∀ filter, f = some filter →
    Names (· ∈ fields) filter.1) : NamesOf fields f.toList := by
  intro filter hfilter
  exact h filter (Option.mem_toList.mp hfilter)

theorem groupClause {fs : Option (List ParsedFilter)} {sep : String} (hsep : sep ≠ "@")
    (h : NamesOf fields (fs.getD [])) : ∀ q ∈ groupClause sep fs, Names (· ∈ fields) q := by
  rcases fs with _ | _ | ⟨f, fs⟩
  · exact fun _ hq ↦ absurd hq List.not_mem_nil
  · exact fun _ hq ↦ absurd hq List.not_mem_nil
  · rw [Redis.groupClause, List.forall_mem_singleton]
    have hopen : Names (· ∈ fields) [.lit "("] := .text (by decide)
    refine (hopen.append (.join hsep ?_)).append (.text (by decide))
    intro q hq
    obtain ⟨g, hg, rfl⟩ := List.mem_map.mp hq
    exact h g hg

/-- A group names what its subfilters name. -/
theorem buildCondition {fs gs : Option (List ParsedFilter)} (hfs : NamesOf fields (fs.getD []))
    (hgs : NamesOf fields' (gs.getD [])) :
    NamesOf (fields ++ fields') (buildCondition fs gs).toList := by
  apply toList
  intro filter h
  rw [Redis.buildCondition] at h
  split_ifs at h
  cases h
  apply Names.join (by decide)
  intro q hq
  rcases List.mem_append.mp hq with hq | hq
  · exact (hfs.groupClause (by decide) q hq).mono fun _ ↦ List.mem_append_left fields'
  · exact (hgs.groupClause (by decide) q hq).mono fun _ ↦ List.mem_append_right fields

theorem collect {α : Type} {f : α → ℕ → List ParsedFilter × ℕ} {xs : List α}
    (h : ∀ x ∈ xs, ∀ c, NamesOf fields (f x c).1) (c : ℕ) : NamesOf fields (collect f xs c).1 := by
  induction xs generalizing c with
  | nil => exact .nil
  | cons x xs ih =>
      intro filter hfilter
      rcases List.mem_append.mp hfilter with hfilter | hfilter
      · exact h x List.mem_cons_self c filter hfilter
      · exact ih (fun y hy ↦ h y (List.mem_cons_of_mem x hy)) _ filter hfilter

end NamesOf

variable (env : NumberEnv)

theorem namesOf_buildLeaves (obj : List (String × Json)) (c : ℕ) :
    NamesOf (obj.map Prod.fst) (buildLeaves env obj c).1 := by
  apply NamesOf.collect
  intro e he c
  obtain ⟨field, fieldFilters⟩ := e
  have hfield : field ∈ obj.map Prod.fst := List.mem_map_of_mem he
  cases fieldFilters with
  | object ops =>
      apply NamesOf.collect
      intro o _ c
      apply NamesOf.toList
      intro filter h
      exact names_buildFilter hfield h
  | null => exact .nil
  | bool _ => exact .nil
  | number _ => exact .nil
  | string _ => exact .nil
  | array _ => exact .nil

mutual

theorem namesOf_buildEntry (entry : Json) (c : ℕ) :
    NamesOf (walk entry) (buildEntry env entry c).1 := by
  match entry with
  | .object obj =>
      rw [buildEntry, walk]
      split_ifs
      · exact .buildCondition (namesOf_buildArrayAt "and" obj c) (namesOf_buildArrayAt "or" obj _)
      · exact namesOf_buildLeaves env obj c
  | .null => exact .nil
  | .bool _ => exact .nil
  | .number _ => exact .nil
  | .string _ => exact .nil
  | .array _ => exact .nil

theorem namesOf_buildSubfilters (entries : List Json) (c : ℕ) :
    NamesOf (walkAll entries) (buildSubfilters env entries c).1 := by
  match entries with
  | [] => exact .nil
  | entry :: entries =>
      rw [buildSubfilters, walkAll]
      exact (namesOf_buildEntry entry c).append (namesOf_buildSubfilters entries _)

theorem namesOf_buildArrayAt (key : String) (obj : List (String × Json)) (c : ℕ) :
    NamesOf (walkAt key obj) ((buildArrayAt env key obj c).1.getD []) := by
  match obj with
  | [] => exact .nil
  | (k, v) :: entries =>
      rw [buildArrayAt, walkAt]
      split_ifs
      · exact namesOf_buildArray v c
      · exact namesOf_buildArrayAt key entries c

/-- What is no array under a group's key is walked, and builds nothing. -/
theorem namesOf_buildArray (v : Json) (c : ℕ) :
    NamesOf (walk v) ((buildArray env v c).1.getD []) := by
  match v with
  | .array entries =>
      rw [walk]
      exact namesOf_buildSubfilters entries c
  | .null => exact .nil
  | .bool _ => exact .nil
  | .number _ => exact .nil
  | .string _ => exact .nil
  | .object _ => exact .nil

end

theorem buildArrayAt_of_missing {key : String} {obj : List (String × Json)}
    (h : containsKey key obj = false) (c : ℕ) : buildArrayAt env key obj c = (none, c) := by
  induction obj with
  | nil => rfl
  | cons e obj ih =>
      obtain ⟨k, v⟩ := e
      rw [containsKey, List.any_cons, Bool.or_eq_false_iff] at h
      rw [buildArrayAt, if_neg (of_decide_eq_false h.1)]
      exact ih h.2

/-- A filter is built for a group only. -/
theorem containsKey_of_buildGroup {obj : List (String × Json)} {c : ℕ} {filter : ParsedFilter}
    (h : (buildGroup env obj c).1 = some filter) :
    (containsKey "and" obj || containsKey "or" obj) = true := by
  by_contra hnot
  rw [Bool.not_eq_true, Bool.or_eq_false_iff] at hnot
  rw [buildGroup, buildArrayAt_of_missing env hnot.1] at h
  dsimp only at h
  rw [buildArrayAt_of_missing env hnot.2] at h
  cases h

/-- No clause of a filter names a field that `filtered_fields` misses. -/
theorem namedFields_subset {conditions : Json} {filter : ParsedFilter}
    (h : parseConditions env conditions = some filter) :
    ∀ field ∈ namedFields filter.1, field ∈ filteredFields conditions := by
  unfold parseConditions at h
  split at h
  · next obj =>
      split_ifs at h
      have hgroup := containsKey_of_buildGroup env h
      have hnames : Names (· ∈ walkAt "and" obj ++ walkAt "or" obj) filter.1 :=
        NamesOf.buildCondition (namesOf_buildArrayAt env "and" obj 0)
          (namesOf_buildArrayAt env "or" obj _) filter (Option.mem_toList.mpr h)
      intro field hfield
      rw [filteredFields, walk, if_pos hgroup, List.mem_toFinset]
      exact hnames.of_mem_namedFields field hfield
  · cases h

/-- Both keys at the top, a group with another key beside its `or`, and what is no array. -/
def mixed : Json :=
  .object [("and", .array
      [.object [("or", .array [.object [("title", .object [("match",
          .object [("text", .string "rain")])])]]), ("year", .null)],
        .string "lang",
        .object [("lang", .object [("match", .object [("value", .bool true)])]),
          ("docid", .null)]]),
    ("or", .object [("body", .null)])]

theorem namedFields_subset_mixed : ∃ filter,
    parseConditions noNumbers mixed = some filter ∧
      namedFields filter.1 = ["title", "lang"] ∧
      ∀ field ∈ namedFields filter.1, field ∈ filteredFields mixed := by
  refine ⟨_, rfl, by decide, ?_⟩
  exact namedFields_subset noNumbers rfl

end VectorDbBenchmark.Fulltext
