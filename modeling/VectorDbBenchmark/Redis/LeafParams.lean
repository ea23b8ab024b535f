import VectorDbBenchmark.Redis.FilterBuilder

/-!
# Parameters of the leaves

A parameter is named after its field, the counter, and for a bound or a coordinate its
role.  The counter and the role can be read off the end of the name whatever the field
is called, so names with different counters or roles differ, and none is one of the
names of the KNN clause.

What a leaf builder does with the counter: the names its filter refers to are numbered
from the counter it was given up to the one it returns, and the names it binds are
among them and bound once.  Filters built one after another keep these properties
together.
-/

namespace VectorDbBenchmark.Redis

open Kit

/-! ## Names -/

/-- The roles that end a name. -/
def roles : List String := ["lt", "gt", "lte", "gte", "lon", "lat", "radius"]

/-- The name of a parameter: that of the counter, followed by the role when it has one. -/
def roleName (field : String) (counter : ℕ) : Option String → String
  | none => paramName field counter
  | some role => paramName field counter ++ "_" ++ role

theorem toList_paramName (field : String) (counter : ℕ) :
    (paramName field counter).toList = field.toList ++ '_' :: counter.repr.toList := by
  rw [paramName, String.toList_append, String.toList_append, List.append_assoc]
  rfl

theorem underscore_notMem_repr (n : ℕ) : '_' ∉ n.repr.toList := fun h ↦
  absurd (isDigit_of_mem_natRepr h) (by decide)

theorem toList_roleName (field : String) (counter : ℕ) (role : String) :
    (roleName field counter (some role)).toList =
      (paramName field counter).toList ++ '_' :: role.toList := by
  rw [roleName, String.toList_append, String.toList_append, List.append_assoc]
  rfl

theorem underscore_notMem_role : ∀ role ∈ roles, '_' ∉ role.toList := by
  decide

/-- A role is no numeral. -/
theorem role_ne_repr {role : String} (h : role ∈ roles) (n : ℕ) :
    role.toList ≠ n.repr.toList := by
  have hletter : ∀ role ∈ roles, role.toList.any (fun c ↦ !c.isDigit) = true := by
    decide
  obtain ⟨c, hc, hdigit⟩ := List.any_eq_true.mp (hletter role h)
  intro heq
  rw [isDigit_of_mem_natRepr (heq ▸ hc)] at hdigit
  cases hdigit

theorem paramName_inj {field field' : String} {n n' : ℕ}
    (h : paramName field n = paramName field' n') : field = field' ∧ n = n' := by
  have heq := congrArg String.toList h
  rw [toList_paramName, toList_paramName] at heq
  obtain ⟨hfield, hn⟩ := append_last_inj (underscore_notMem_repr n) (underscore_notMem_repr n') heq
  exact ⟨String.toList_injective hfield, natRepr_injective (String.toList_injective hn)⟩

/-- The counter and the role of a name are determined. -/
theorem roleName_inj {field field' : String} {n n' : ℕ} {role role' : Option String}
    (hrole : ∀ r ∈ role, r ∈ roles) (hrole' : ∀ r ∈ role', r ∈ roles)
    (h : roleName field n role = roleName field' n' role') :
    field = field' ∧ n = n' ∧ role = role' := by
  have heq := congrArg String.toList h
  rcases role with _ | role <;> rcases role' with _ | role'
  · obtain ⟨hfield, hn⟩ := paramName_inj h
    exact ⟨hfield, hn, rfl⟩
  · rw [roleName, toList_paramName, toList_roleName] at heq
    have hmem := hrole' role' rfl
    obtain ⟨-, hr⟩ := append_last_inj (underscore_notMem_repr n)
      (underscore_notMem_role _ hmem) heq
    exact absurd hr.symm (role_ne_repr hmem n)
  · have hname : (roleName field' n' none).toList = field'.toList ++ '_' :: n'.repr.toList :=
      toList_paramName field' n'
    rw [toList_roleName, hname] at heq
    have hmem := hrole role rfl
    obtain ⟨-, hr⟩ := append_last_inj (underscore_notMem_role _ hmem)
      (underscore_notMem_repr n') heq
    exact absurd hr (role_ne_repr hmem n')
  · rw [toList_roleName, toList_roleName] at heq
    obtain ⟨hname, hr⟩ := append_last_inj (underscore_notMem_role _ (hrole role rfl))
      (underscore_notMem_role _ (hrole' role' rfl)) heq
    obtain ⟨hfield, hn⟩ := paramName_inj (String.toList_injective hname)
    exact ⟨hfield, hn, congrArg some (String.toList_injective hr)⟩

/-- The name of a parameter whose counter is in a range. -/
def Numbered (c c' : ℕ) (name : String) : Prop :=
  ∃ field n role, c ≤ n ∧ n < c' ∧ (∀ r ∈ role, r ∈ roles) ∧ name = roleName field n role

theorem Numbered.mono {c c' d d' : ℕ} {name : String} (h : Numbered c c' name) (hd : d ≤ c)
    (hd' : c' ≤ d') : Numbered d d' name := by
  obtain ⟨field, n, role, hn, hn', hrole, rfl⟩ := h
  exact ⟨field, n, role, hd.trans hn, lt_of_lt_of_le hn' hd', hrole, rfl⟩

/-- Names numbered in ranges that follow each other differ. -/
theorem Numbered.ne {c c' d d' : ℕ} {name name' : String} (h : Numbered c c' name)
    (h' : Numbered d d' name') (hd : c' ≤ d) : name ≠ name' := by
  obtain ⟨field, n, role, -, hn, hrole, rfl⟩ := h
  obtain ⟨field', n', role', hn', -, hrole', rfl⟩ := h'
  intro heq
  obtain ⟨-, rfl, -⟩ := roleName_inj hrole hrole' heq
  exact absurd (lt_of_lt_of_le hn hd) (not_lt.mpr hn')

/-- The names of the KNN clause. -/
def knnNames : List String := ["vec_param", "K", "EF"]

/-- A numbered name is none of the names of the KNN clause. -/
theorem Numbered.notMem_knnNames {c c' : ℕ} {name : String} (h : Numbered c c' name) :
    name ∉ knnNames := by
  obtain ⟨field, n, role, -, -, hrole, rfl⟩ := h
  have hname : ∃ front last, (roleName field n role).toList = front ++ '_' :: last ∧
      '_' ∉ last ∧ last ≠ "param".toList := by
    rcases role with _ | role
    · refine ⟨_, _, toList_paramName field n, underscore_notMem_repr n, fun heq ↦ ?_⟩
      have hp : 'p' ∈ n.repr.toList := heq ▸ (by decide : 'p' ∈ "param".toList)
      exact absurd (isDigit_of_mem_natRepr hp) (by decide)
    · have hmem := hrole role rfl
      refine ⟨_, _, toList_roleName field n role, underscore_notMem_role _ hmem, ?_⟩
      have hparam : ∀ role ∈ roles, role.toList ≠ "param".toList := by decide
      exact hparam role hmem
  obtain ⟨front, last, hlist, hlast, hparam⟩ := hname
  intro hmem
  rcases List.mem_cons.mp hmem with heq | hmem
  · have hvec : front ++ '_' :: last = "vec".toList ++ '_' :: "param".toList := by
      rw [← hlist, heq]
      rfl
    exact hparam (append_last_inj hlast (by decide) hvec).2
  · have hunderscore : '_' ∈ (roleName field n role).toList := by
      rw [hlist]
      exact List.mem_append_right _ List.mem_cons_self
    have hnone : ∀ name ∈ ["K", "EF"], '_' ∉ name.toList := by decide
    exact hnone _ hmem hunderscore

/-! ## Builders -/

/-- The names the filters refer to, in order. -/
def allRefs (fs : List ParsedFilter) : List String := fs.flatMap fun f ↦ f.1.refs

/-- The parameters of the filters, in order. -/
def allParams (fs : List ParsedFilter) : Params := fs.flatMap Prod.snd

section Lists

variable (fs gs : List ParsedFilter)

@[simp] theorem allRefs_nil : allRefs [] = [] := rfl

@[simp] theorem allRefs_append : allRefs (fs ++ gs) = allRefs fs ++ allRefs gs :=
  List.flatMap_append

@[simp] theorem allRefs_singleton (f : ParsedFilter) : allRefs [f] = f.1.refs :=
  List.flatMap_singleton _ _

@[simp] theorem allParams_nil : allParams [] = [] := rfl

@[simp] theorem allParams_append : allParams (fs ++ gs) = allParams fs ++ allParams gs :=
  List.flatMap_append

@[simp] theorem allParams_singleton (f : ParsedFilter) : allParams [f] = f.2 :=
  List.flatMap_singleton _ _

end Lists

@[simp] theorem Params.names_append (ps qs : Params) :
    Params.names (ps ++ qs) = ps.names ++ qs.names := List.map_append

/-! ## The invariant -/

/-- The filters built while the counter went from `c` to `c'`. -/
structure Spread (c c' : ℕ) (fs : List ParsedFilter) : Prop where
  le : c ≤ c'
  nodup : (allParams fs).names.Nodup
  used : ∀ name ∈ (allParams fs).names, name ∈ allRefs fs
  numbered : ∀ name ∈ allRefs fs, Numbered c c' name

/-- Every name referred to is bound. -/
def Closed (fs : List ParsedFilter) : Prop := ∀ name ∈ allRefs fs, name ∈ (allParams fs).names

namespace Spread

variable {c c' c'' : ℕ} {fs gs : List ParsedFilter}

theorem nil (h : c ≤ c') : Spread c c' [] where
  le := h
  nodup := List.nodup_nil
  used _ h := absurd h List.not_mem_nil
  numbered _ h := absurd h List.not_mem_nil

/-- The names bound earlier are not referred to later. -/
theorem notMem_refs (hf : Spread c c' fs) (hg : Spread c' c'' gs) {name : String}
    (h : name ∈ (allParams fs).names) : name ∉ allRefs gs := fun hmem ↦
  (hf.numbered name (hf.used name h)).ne (hg.numbered name hmem) le_rfl rfl

/-- The names bound later are not referred to earlier. -/
theorem notMem_refs_left (hf : Spread c c' fs) (hg : Spread c' c'' gs) {name : String}
    (h : name ∈ (allParams gs).names) : name ∉ allRefs fs := fun hmem ↦
  (hf.numbered name hmem).ne (hg.numbered name (hg.used name h)) le_rfl rfl

theorem append (hf : Spread c c' fs) (hg : Spread c' c'' gs) : Spread c c'' (fs ++ gs) where
  le := hf.le.trans hg.le
  nodup := by
    rw [allParams_append, Params.names_append, List.nodup_append]
    refine ⟨hf.nodup, hg.nodup, fun name hname name' hname' ↦ ?_⟩
    rintro rfl
    exact hf.notMem_refs hg hname (hg.used name hname')
  used name hname := by
    rw [allParams_append, Params.names_append, List.mem_append] at hname
    rw [allRefs_append, List.mem_append]
    exact hname.imp (hf.used name) (hg.used name)
  numbered name hname := by
    rw [allRefs_append, List.mem_append] at hname
    rcases hname with hname | hname
    · exact (hf.numbered name hname).mono le_rfl hg.le
    · exact (hg.numbered name hname).mono hf.le le_rfl

/-- What is missing on one side is not bound on the other. -/
theorem closed_append (hf : Spread c c' fs) (hg : Spread c' c'' gs) :
    Closed (fs ++ gs) ↔ Closed fs ∧ Closed gs := by
  rw [Closed, allRefs_append, allParams_append, Params.names_append]
  constructor
  · intro h
    refine ⟨fun name hname ↦ ?_, fun name hname ↦ ?_⟩
    · refine (List.mem_append.mp (h name (List.mem_append_left _ hname))).resolve_right ?_
      exact fun hmem ↦ hf.notMem_refs_left hg hmem hname
    · refine (List.mem_append.mp (h name (List.mem_append_right _ hname))).resolve_left ?_
      exact fun hmem ↦ hf.notMem_refs hg hmem hname
  · rintro ⟨hfs, hgs⟩ name hname
    rw [List.mem_append] at hname ⊢
    exact hname.imp (hfs name) (hgs name)

/-- One filter, whose names are numbered by the counter. -/
theorem single {f : ParsedFilter} (hle : c ≤ c') (hnodup : f.2.names.Nodup)
    (hused : ∀ name ∈ f.2.names, name ∈ f.1.refs)
    (hnumbered : ∀ name ∈ f.1.refs, Numbered c c' name) : Spread c c' [f] where
  le := hle
  nodup := by rwa [allParams_singleton]
  used := by rwa [allParams_singleton, allRefs_singleton]
  numbered := by rwa [allRefs_singleton]

end Spread

theorem closed_nil : Closed [] := fun _ h ↦ absurd h List.not_mem_nil

theorem closed_singleton {f : ParsedFilter} :
    Closed [f] ↔ ∀ name ∈ f.1.refs, name ∈ f.2.names := by
  rw [Closed, allRefs_singleton, allParams_singleton]

/-! ## Names of a leaf -/

theorem numbered_paramName (field : String) {c c' n : ℕ} (h : c ≤ n) (h' : n < c') :
    Numbered c c' (paramName field n) :=
  ⟨field, n, none, h, h', fun _ hr ↦ (nomatch hr), rfl⟩

theorem numbered_role (field : String) (c : ℕ) {role : String} (h : role ∈ roles) :
    Numbered c (c + 1) (paramName field c ++ "_" ++ role) :=
  ⟨field, c, some role, le_rfl, Nat.lt_succ_self c, fun _ hr ↦ Option.some.inj hr ▸ h, rfl⟩

/-- Different roles of one counter give different names. -/
theorem nodup_roleNames {α : Type} {role : α → String} {xs : List α} (field : String) (c : ℕ)
    (h : (xs.map role).Nodup) (hroles : ∀ x ∈ xs, role x ∈ roles) :
    (xs.map fun x ↦ paramName field c ++ "_" ++ role x).Nodup := by
  rw [List.Nodup, List.pairwise_map] at h ⊢
  refine h.imp_of_mem fun hx hy hne heq ↦ hne ?_
  have hinj := roleName_inj (fun _ hr ↦ Option.some.inj hr ▸ hroles _ hx)
    (fun _ hr ↦ Option.some.inj hr ▸ hroles _ hy) heq
  exact Option.some.inj hinj.2.2

section Numbered

variable {α : Type} (field : String) (c : ℕ) (xs : List α)

@[simp] theorem length_numbered : (numbered field c xs).length = xs.length := by
  rw [numbered, List.length_map, List.length_zipIdx]

theorem map_fst_numbered : (numbered field c xs).map Prod.fst =
    (List.range' c xs.length).map (paramName field) := by
  rw [← List.zipIdx_map_snd, numbered, List.map_map, List.map_map]
  rfl

variable {xs} in
theorem numbered_ne_nil (h : xs ≠ []) : (numbered field c xs).map Prod.fst ≠ [] := by
  intro hnil
  have hlength := congrArg List.length hnil
  rw [List.length_map, length_numbered, List.length_nil] at hlength
  exact h (List.length_eq_zero_iff.mp hlength)

theorem nodup_numbered : ((numbered field c xs).map Prod.fst).Nodup := by
  rw [map_fst_numbered]
  exact (List.nodup_range' 1).map fun n n' h ↦ (paramName_inj h).2

variable {field c xs}

theorem numbered_of_mem {name : String} (h : name ∈ (numbered field c xs).map Prod.fst) :
    Numbered c (c + xs.length) name := by
  rw [map_fst_numbered] at h
  obtain ⟨n, hn, rfl⟩ := List.mem_map.mp h
  rw [List.mem_range'_1] at hn
  exact numbered_paramName field hn.1 hn.2

end Numbered

theorem filterMap_ne_nil {α β : Type} {f : α → Option β} {xs : List α} (hne : xs ≠ [])
    (h : ∀ x ∈ xs, (f x).isSome) : xs.filterMap f ≠ [] := by
  cases xs with
  | nil => exact absurd rfl hne
  | cons x xs =>
      obtain ⟨y, hy⟩ := Option.isSome_iff_exists.mp (h x List.mem_cons_self)
      rw [List.filterMap_cons_some hy]
      exact List.cons_ne_nil _ _

/-- Inserting under names that differ lists the entries. -/
theorem foldl_insert {α : Type} {name : α → String} {value : α → FilterParamValue} {xs : List α}
    (h : (xs.map name).Nodup) :
    xs.foldl (fun ps x ↦ Params.insert ps (name x) (value x)) [] =
      xs.map fun x ↦ (name x, value x) := by
  have hextend : Params.extend [] (xs.map fun x ↦ (name x, value x)) =
      xs.foldl (fun ps x ↦ Params.insert ps (name x) (value x)) [] := by
    rw [Params.extend, List.foldl_map]
  rw [← hextend, Params.extend_of_nodup, List.nil_append]
  rw [List.nil_append, Params.names, List.map_map]
  exact h

/-- A filter whose references are the names it binds. -/
theorem spread_of_names {c c' : ℕ} {f : ParsedFilter} (hle : c ≤ c') (hnodup : f.2.names.Nodup)
    (hnumbered : ∀ name ∈ f.2.names, Numbered c c' name)
    (href : ∀ name, name ∈ f.1.refs ↔ name ∈ f.2.names) : Spread c c' [f] ∧ Closed [f] :=
  ⟨.single hle hnodup (fun name h ↦ (href name).mpr h)
    fun name h ↦ hnumbered name ((href name).mp h),
    closed_singleton.mpr fun name h ↦ (href name).mp h⟩

/-- A filter with the one parameter of its counter. -/
theorem spread_of_one {field : String} {c : ℕ} {q : Query} {value : FilterParamValue}
    (href : ∀ name, name ∈ q.refs ↔ name = paramName field c) :
    Spread c (c + 1) [(q, [(paramName field c, value)])] ∧
      Closed [(q, [(paramName field c, value)])] := by
  refine spread_of_names (Nat.le_succ c) (List.nodup_singleton _) (fun name h ↦ ?_) fun name ↦ ?_
  · rw [List.mem_singleton.mp h]
    exact numbered_paramName field le_rfl (Nat.lt_succ_self c)
  · exact (href name).trans List.mem_singleton.symm

/-! ## References of a clause -/

@[simp] theorem refs_tagClause (field : String) (q : Query) :
    (tagClause field q).refs = q.refs := by
  simp [tagClause]

@[simp] theorem refs_pointClause (field p : String) : (pointClause field p).refs = [p, p] := rfl

@[simp] theorem refs_textClause (field p : String) : (textClause field p).refs = [p] := rfl

@[simp] theorem refs_neverClause (q : Query) : (neverClause q).refs = q.refs ++ q.refs := by
  simp [neverClause]

/-! ## The builders -/

section Builders

variable (env : NumberEnv) (field : String) (c : ℕ)

theorem matchAny_spread (any : List Json) :
    Spread c (buildMatchAnyFilter field any c).2 [(buildMatchAnyFilter field any c).1] ∧
      Closed [(buildMatchAnyFilter field any c).1] := by
  rw [buildMatchAnyFilter]
  split_ifs
  · dsimp only
    rw [foldl_insert (nodup_numbered field c _), length_numbered]
    refine spread_of_names (Nat.le_add_right _ _) ?_ (fun name h ↦ ?_) fun name ↦ ?_
    · rw [Params.names, List.map_map]
      exact nodup_numbered field c _
    · rw [Params.names, List.map_map] at h
      exact numbered_of_mem h
    · simp [Query.refs_join, Params.names, pointClause]
  · dsimp only
    split_ifs
    · exact spread_of_one fun name ↦ by simp
    · rw [foldl_insert (nodup_numbered field c _), length_numbered]
      refine spread_of_names (Nat.le_add_right _ _) ?_ (fun name h ↦ ?_) fun name ↦ ?_
      · rw [Params.names, List.map_map]
        exact nodup_numbered field c _
      · rw [Params.names, List.map_map] at h
        exact numbered_of_mem h
      · simp [Query.refs_join, Params.names]

theorem text_spread (text : String) :
    Spread c (buildTextFilter field text c).2 [(buildTextFilter field text c).1] ∧
      Closed [(buildTextFilter field text c).1] := by
  rw [buildTextFilter]
  split_ifs
  · exact spread_of_one fun name ↦ by simp
  · exact spread_of_one fun name ↦ by simp

/-- A leaf that may be dropped after the counter has gone up. -/
theorem spread_toList {f : Option ParsedFilter} {c c' : ℕ} (hle : c ≤ c')
    (h : ∀ g, f = some g → Spread c c' [g] ∧ Closed [g]) :
    Spread c c' f.toList ∧ Closed f.toList := by
  cases f with
  | none => exact ⟨.nil hle, closed_nil⟩
  | some g => exact h g rfl

theorem exactMatch_spread (criteria : Json) :
    Spread c (buildExactMatchFilter field criteria c).2
      (buildExactMatchFilter field criteria c).1.toList ∧
      Closed (buildExactMatchFilter field criteria c).1.toList := by
  rw [buildExactMatchFilter]
  split
  · exact ⟨.nil le_rfl, closed_nil⟩
  · refine spread_toList (Nat.le_succ c) fun g hg ↦ ?_
    dsimp only at hg
    split at hg
    · cases hg
      exact spread_of_one fun name ↦ by simp
    · split at hg
      · cases hg
        exact spread_of_one fun name ↦ by simp
      · split at hg
        · cases hg
          exact spread_of_one fun name ↦ by simp
        · obtain ⟨f, -, rfl⟩ := Option.map_eq_some_iff.mp hg
          exact spread_of_one fun name ↦ by simp

/-! A range leaf binds the bounds that convert, and refers to each of them. -/

theorem mem_refs_endsOr (inf : String) {ends : List Query} {name : String} :
    (∃ e ∈ endsOr inf ends, name ∈ e.refs) ↔ ∃ e ∈ ends, name ∈ e.refs := by
  rw [endsOr]
  split_ifs with h
  · rw [List.isEmpty_iff.mp h]
    simp
  · rfl

theorem exists_mem_endsOr (inf : String) (ends : List Query) : ∃ e, e ∈ endsOr inf ends := by
  rw [endsOr]
  split_ifs with h
  · exact ⟨_, List.mem_singleton_self _⟩
  · exact List.exists_mem_of_ne_nil ends fun hnil ↦ h (by rw [hnil]; rfl)

theorem refs_interval (field : String) (lo hi : Query) :
    (interval field lo hi).refs = lo.refs ++ hi.refs := by
  simp [interval]

/-- Each bound is the end of an interval on one side. -/
theorem mem_refs_bound {b : Bound} {name : String} :
    ((∃ e ∈ b.lower, name ∈ e.refs) ∨ ∃ e ∈ b.upper, name ∈ e.refs) ↔ name = b.parameter := by
  obtain ⟨parameter, operator⟩ := b
  cases operator <;> simp [Bound.lower, Bound.upper]

theorem mem_refs_render {bounds : List Bound} {q : Query} (h : render field bounds = some q)
    (name : String) : name ∈ q.refs ↔ name ∈ bounds.map Bound.parameter := by
  rw [render] at h
  split_ifs at h
  cases h
  have hpairs : name ∈ (Query.join " " ((endsOr "-inf" (bounds.filterMap Bound.lower)).flatMap
      fun lo ↦ (endsOr "+inf" (bounds.filterMap Bound.upper)).map fun hi ↦
        interval field lo hi)).refs ↔
      (∃ e ∈ bounds.filterMap Bound.lower, name ∈ e.refs) ∨
        ∃ e ∈ bounds.filterMap Bound.upper, name ∈ e.refs := by
    obtain ⟨lo, hlo⟩ := exists_mem_endsOr "-inf" (bounds.filterMap Bound.lower)
    obtain ⟨hi, hhi⟩ := exists_mem_endsOr "+inf" (bounds.filterMap Bound.upper)
    refine Iff.trans ?_ (or_congr (mem_refs_endsOr "-inf") (mem_refs_endsOr "+inf"))
    simp only [Query.refs_join, List.mem_flatMap, List.mem_map]
    constructor
    · rintro ⟨-, ⟨e, he, e', he', rfl⟩, hname⟩
      rw [refs_interval, List.mem_append] at hname
      exact hname.imp (fun hn ↦ ⟨e, he, hn⟩) fun hn ↦ ⟨e', he', hn⟩
    · rintro (⟨e, he, hname⟩ | ⟨e, he, hname⟩)
      · refine ⟨_, ⟨e, he, hi, hhi, rfl⟩, ?_⟩
        rw [refs_interval]
        exact List.mem_append_left _ hname
      · refine ⟨_, ⟨lo, hlo, e, he, rfl⟩, ?_⟩
        rw [refs_interval]
        exact List.mem_append_right _ hname
  rw [hpairs, List.mem_map]
  constructor
  · rintro (⟨e, he, hname⟩ | ⟨e, he, hname⟩)
    · obtain ⟨b, hb, hlower⟩ := List.mem_filterMap.mp he
      exact ⟨b, hb, (mem_refs_bound.mp (.inl ⟨e, hlower, hname⟩)).symm⟩
    · obtain ⟨b, hb, hupper⟩ := List.mem_filterMap.mp he
      exact ⟨b, hb, (mem_refs_bound.mp (.inr ⟨e, hupper, hname⟩)).symm⟩
  · rintro ⟨b, hb, rfl⟩
    rcases mem_refs_bound.mpr rfl with ⟨e, he, hname⟩ | ⟨e, he, hname⟩
    · exact .inl ⟨e, List.mem_filterMap.mpr ⟨b, hb, he⟩, hname⟩
    · exact .inr ⟨e, List.mem_filterMap.mpr ⟨b, hb, he⟩, hname⟩

/-- The bounds are named after the keys, in their order. -/
theorem rangeBounds_sublist (paramPrefix : String) (criteria : Json) :
    ((rangeBounds env paramPrefix criteria).map fun b ↦ b.1.parameter).Sublist
      (rangeKeys.map fun k ↦ paramPrefix ++ "_" ++ k.1) := by
  have hsub : ∀ keys : List (String × Operator),
      ((keys.filterMap fun k ↦ do
        let v ← criteria.get k.1
        let value ← toNumber env v
        pure ((⟨paramPrefix ++ "_" ++ k.1, k.2⟩ : Bound), value)).map
          fun b ↦ b.1.parameter).Sublist (keys.map fun k ↦ paramPrefix ++ "_" ++ k.1) := by
    intro keys
    induction keys with
    | nil => exact List.Sublist.slnil
    | cons k keys ih =>
        rw [List.filterMap_cons, List.map_cons]
        split
        · exact ih.cons _
        · next hb =>
            obtain ⟨v, -, hb⟩ := Option.bind_eq_some_iff.mp hb
            obtain ⟨value, -, hb⟩ := Option.bind_eq_some_iff.mp hb
            cases hb
            exact ih.cons_cons _
  exact hsub rangeKeys

theorem mem_roles_of_rangeKeys {k : String × Operator} (h : k ∈ rangeKeys) : k.1 ∈ roles := by
  revert k
  decide

/-- The names of the bounds differ. -/
theorem nodup_rangeBounds (criteria : Json) :
    ((rangeBounds env (paramName field c) criteria).map fun b ↦ b.1.parameter).Nodup :=
  (nodup_roleNames field c (by decide : (rangeKeys.map Prod.fst).Nodup)
    fun _ hk ↦ mem_roles_of_rangeKeys hk).sublist
    (rangeBounds_sublist env (paramName field c) criteria)

theorem range_spread (criteria : Json) :
    Spread c (buildRangeFilter env field criteria c).2
      (buildRangeFilter env field criteria c).1.toList ∧
      Closed (buildRangeFilter env field criteria c).1.toList := by
  rw [buildRangeFilter]
  refine spread_toList (Nat.le_succ c) fun g hg ↦ ?_
  obtain ⟨q, hq, rfl⟩ := Option.map_eq_some_iff.mp hg
  have hsub := rangeBounds_sublist env (paramName field c) criteria
  have hnodup := nodup_rangeBounds env field c criteria
  rw [foldl_insert hnodup]
  have hnames : Params.names ((rangeBounds env (paramName field c) criteria).map
      fun b ↦ (b.1.parameter, b.2)) =
        (rangeBounds env (paramName field c) criteria).map fun b ↦ b.1.parameter := by
    rw [Params.names, List.map_map]
    rfl
  refine spread_of_names (Nat.le_succ c) (hnames ▸ hnodup) (fun name h ↦ ?_) fun name ↦ ?_
  · rw [hnames] at h
    obtain ⟨k, hk, rfl⟩ := List.mem_map.mp (hsub.subset h)
    exact numbered_role field c (mem_roles_of_rangeKeys hk)
  · rw [mem_refs_render field hq, hnames, List.map_map]
    rfl

/-! A geo leaf refers to its three values whether they convert or not. -/

/-- The entries that convert, under names that differ. -/
theorem foldl_insertNumberParam {ps : Params} {entries : List (String × Json)}
    (h : (ps.names ++ entries.map Prod.fst).Nodup) :
    entries.foldl (fun ps e ↦ insertNumberParam env ps e.1 e.2) ps =
      ps ++ entries.filterMap fun e ↦ (toNumber env e.2).map fun v ↦ (e.1, v) := by
  induction entries generalizing ps with
  | nil => exact (List.append_nil ps).symm
  | cons e entries ih =>
      have hnot : e.1 ∉ ps.names := fun hmem ↦
        (List.nodup_append.mp h).2.2 _ hmem _ List.mem_cons_self rfl
      rw [List.foldl_cons, List.filterMap_cons, insertNumberParam]
      cases toNumber env e.2 with
      | none =>
          refine ih (h.sublist ?_)
          exact (List.sublist_cons_self _ _).append_left _
      | some v =>
          dsimp only [Option.map_some]
          rw [Params.insert_of_not_mem hnot, ih, List.append_assoc]
          · rfl
          · rw [Params.names_append, List.append_assoc]
            exact h

/-- Every name is bound when every entry converts. -/
theorem names_filterMap_toNumber {entries : List (String × Json)}
    (h : (entries.map Prod.fst).Nodup) :
    (∀ name ∈ entries.map Prod.fst,
      name ∈ Params.names (entries.filterMap fun e ↦ (toNumber env e.2).map fun v ↦ (e.1, v))) ↔
      ∀ v ∈ entries.map Prod.snd, (toNumber env v).isSome := by
  constructor
  · intro hall v hv
    obtain ⟨e, he, rfl⟩ := List.mem_map.mp hv
    obtain ⟨b, hb, hname⟩ := List.mem_map.mp (hall e.1 (List.mem_map_of_mem he))
    obtain ⟨e', he', hb⟩ := List.mem_filterMap.mp hb
    obtain ⟨w, hw, rfl⟩ := Option.map_eq_some_iff.mp hb
    rw [← List.inj_on_of_nodup_map h he' he hname, hw]
    rfl
  · intro hall name hname
    obtain ⟨e, he, rfl⟩ := List.mem_map.mp hname
    obtain ⟨w, hw⟩ := Option.isSome_iff_exists.mp (hall e.2 (List.mem_map_of_mem he))
    exact List.mem_map.mpr ⟨(e.1, w),
      List.mem_filterMap.mpr ⟨e, he, by rw [hw, Option.map_some]⟩, rfl⟩

theorem names_filterMap_sublist (entries : List (String × Json)) :
    (Params.names (entries.filterMap fun e ↦ (toNumber env e.2).map fun v ↦ (e.1, v))).Sublist
      (entries.map Prod.fst) := by
  induction entries with
  | nil => exact List.Sublist.slnil
  | cons e entries ih =>
      rw [List.filterMap_cons]
      cases toNumber env e.2 with
      | none => exact ih.cons _
      | some v => exact ih.cons_cons _

/-- The coordinates and the radius, under the names a geo leaf gives them. -/
def geoEntries (lon lat radius : Json) : List (String × Json) :=
  [(paramName field c ++ "_lon", lon), (paramName field c ++ "_lat", lat),
    (paramName field c ++ "_radius", radius)]

theorem names_geoEntries (lon lat radius : Json) :
    (geoEntries field c lon lat radius).map Prod.fst =
      ["lon", "lat", "radius"].map fun role ↦ paramName field c ++ "_" ++ role := by
  simp only [geoEntries, List.map_cons, List.map_nil, String.append_assoc]
  rfl

theorem nodup_geoEntries (lon lat radius : Json) :
    ((geoEntries field c lon lat radius).map Prod.fst).Nodup := by
  rw [names_geoEntries]
  exact nodup_roleNames field c (by decide : (["lon", "lat", "radius"].map id).Nodup) (by decide)

/-- A geo leaf all of whose values that are there convert; other leaves have none. -/
def geoConverts (op : String) (criteria : Json) : Prop :=
  op = "geo" → ∀ lon lat radius, criteria.get "lon" = some lon → criteria.get "lat" = some lat →
    criteria.get "radius" = some radius → ∀ v ∈ [lon, lat, radius], (toNumber env v).isSome

/-- A geo leaf with its three values. -/
theorem buildGeoFilter_of_values {criteria lon lat radius : Json}
    (hlon : criteria.get "lon" = some lon) (hlat : criteria.get "lat" = some lat)
    (hradius : criteria.get "radius" = some radius) :
    buildGeoFilter env field criteria c =
      (some (geoClause field (paramName field c ++ "_lon") (paramName field c ++ "_lat")
        (paramName field c ++ "_radius"), (geoEntries field c lon lat radius).filterMap fun e ↦
          (toNumber env e.2).map fun v ↦ (e.1, v)), c + 1) := by
  have hparams : (geoEntries field c lon lat radius).foldl
      (fun ps e ↦ insertNumberParam env ps e.1 e.2) [] = _ :=
    foldl_insertNumberParam env (nodup_geoEntries field c lon lat radius)
  rw [List.nil_append] at hparams
  rw [buildGeoFilter, ← hparams, hlon, hlat, hradius]
  rfl

theorem buildGeoFilter_of_missing {criteria : Json} {key : String}
    (hkey : key ∈ ["lon", "lat", "radius"]) (h : criteria.get key = none) :
    buildGeoFilter env field criteria c = (none, c + 1) := by
  rw [buildGeoFilter]
  simp only [List.mem_cons, List.not_mem_nil, or_false] at hkey
  rcases hkey with rfl | rfl | rfl
  · rw [h]
    rfl
  · rw [h]
    cases criteria.get "lon" <;> rfl
  · rw [h]
    cases criteria.get "lon" <;> cases criteria.get "lat" <;> rfl

theorem geo_spread (criteria : Json) :
    Spread c (buildGeoFilter env field criteria c).2
      (buildGeoFilter env field criteria c).1.toList ∧
      (Closed (buildGeoFilter env field criteria c).1.toList ↔
        geoConverts env "geo" criteria) := by
  by_cases hmissing : ∃ key ∈ ["lon", "lat", "radius"], criteria.get key = none
  · obtain ⟨key, hkey, hnone⟩ := hmissing
    rw [buildGeoFilter_of_missing env field c hkey hnone]
    refine ⟨.nil (Nat.le_succ c),
      iff_of_true closed_nil fun _ lon lat radius hlon hlat hradius ↦ ?_⟩
    simp only [List.mem_cons, List.not_mem_nil, or_false] at hkey
    rcases hkey with rfl | rfl | rfl
    · cases hnone.symm.trans hlon
    · cases hnone.symm.trans hlat
    · cases hnone.symm.trans hradius
  · have hvalues : ∀ key ∈ ["lon", "lat", "radius"], ∃ v, criteria.get key = some v :=
      fun key hkey ↦ Option.ne_none_iff_exists'.mp fun h ↦ hmissing ⟨key, hkey, h⟩
    obtain ⟨lon, hlon⟩ := hvalues "lon" (by decide)
    obtain ⟨lat, hlat⟩ := hvalues "lat" (by decide)
    obtain ⟨radius, hradius⟩ := hvalues "radius" (by decide)
    have hnodup := nodup_geoEntries field c lon lat radius
    have hsub := names_filterMap_sublist env (geoEntries field c lon lat radius)
    rw [buildGeoFilter_of_values env field c hlon hlat hradius, Option.toList_some,
      closed_singleton]
    have hrefs : (geoClause field (paramName field c ++ "_lon") (paramName field c ++ "_lat")
        (paramName field c ++ "_radius")).refs =
          (geoEntries field c lon lat radius).map Prod.fst := rfl
    rw [hrefs]
    refine ⟨.single (Nat.le_succ c) (hnodup.sublist hsub) (fun name h ↦ hrefs ▸ hsub.subset h)
      fun name h ↦ ?_, (names_filterMap_toNumber env hnodup).trans ?_⟩
    · rw [hrefs, names_geoEntries] at h
      obtain ⟨role, hrole, rfl⟩ := List.mem_map.mp h
      have hroles : ∀ role ∈ ["lon", "lat", "radius"], role ∈ roles := by decide
      exact numbered_role field c (hroles role hrole)
    · constructor
      · intro h _ lon' lat' radius' hlon' hlat' hradius'
        cases hlon.symm.trans hlon'
        cases hlat.symm.trans hlat'
        cases hradius.symm.trans hradius'
        exact h
      · intro h
        exact h rfl lon lat radius hlon hlat hradius

theorem geoConverts_of_ne {op : String} (h : op ≠ "geo") (criteria : Json) :
    geoConverts env op criteria := fun heq ↦ absurd heq h

/-- What any leaf builder does: its names are its own, and bound unless it is a geo leaf
with a value that is no number. -/
theorem filter_spread (op : String) (criteria : Json) :
    Spread c (buildFilter env field op criteria c).2
      (buildFilter env field op criteria c).1.toList ∧
      (Closed (buildFilter env field op criteria c).1.toList ↔ geoConverts env op criteria) := by
  unfold buildFilter
  split
  · have hne := geoConverts_of_ne env (by decide : "match" ≠ "geo") criteria
    split
    · next any _ =>
        obtain ⟨hspread, hclosed⟩ := matchAny_spread field c any
        exact ⟨hspread, iff_of_true hclosed hne⟩
    · split
      · next text _ =>
          obtain ⟨hspread, hclosed⟩ := text_spread field c text
          exact ⟨hspread, iff_of_true hclosed hne⟩
      · obtain ⟨hspread, hclosed⟩ := exactMatch_spread field c criteria
        exact ⟨hspread, iff_of_true hclosed hne⟩
  · obtain ⟨hspread, hclosed⟩ := range_spread env field c criteria
    exact ⟨hspread, iff_of_true hclosed (geoConverts_of_ne env (by decide) criteria)⟩
  · exact geo_spread env field c criteria
  · next hgeo =>
      exact ⟨.nil le_rfl, iff_of_true closed_nil (geoConverts_of_ne env hgeo criteria)⟩

end Builders

end VectorDbBenchmark.Redis
