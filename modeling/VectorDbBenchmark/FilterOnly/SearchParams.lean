import VectorDbBenchmark.Kit.Fallible
import VectorDbBenchmark.Kit.FirstOfKey

/-!
# The search configs that a filter-only run keeps

`search_param_indices` and `mixed_search_param_indices` of `src/filter_only.rs`: of the
filter-only search configs the first at each concurrency is kept, and another result limit
at that concurrency is refused.  All other search configs are kept.
-/

namespace VectorDbBenchmark.FilterOnly

open Kit

/-- What is looked at of a search config. -/
structure SearchParam where
  isFilterOnly : Bool
  parallel : Option ℤ
  top : Option ℤ
deriving DecidableEq, Repr

/-- `{:?}` of a result limit. -/
def debugLimit : Option ℤ → String
  | some top => s!"Some({top})"
  | none => "None"

/-- The concurrency of a search config. -/
def parallelOf (p : Option ℤ × Option ℤ) : ℤ := p.1.getD 1

section Loop

variable (defaultLimit : Option ℤ)

/-- The result limit of a search config. -/
def limitOf (p : Option ℤ × Option ℤ) : Option ℤ := p.2.orElse fun _ ↦ defaultLimit

/-- One round of the loop, over the limits and the selection so far. -/
def selectParam (st : List (ℤ × Option ℤ) × List ℕ) (p : (Option ℤ × Option ℤ) × ℕ) :
    Except String (List (ℤ × Option ℤ) × List ℕ) :=
  let parallel := parallelOf p.1
  let top := limitOf defaultLimit p.1
  match st.1.lookup parallel with
  | some previous =>
    if previous ≠ top then
      .error (s!"filter-only search configs for parallel={parallel} have conflicting result " ++
        s!"limits: top={debugLimit previous} vs top={debugLimit top}; use one result limit per " ++
        "parallel level")
    else .ok st
  | none => .ok ((parallel, top) :: st.1, st.2 ++ [p.2])

def searchParamIndices (params : List (Option ℤ × Option ℤ)) : Except String (List ℕ) := do
  let st ← params.zipIdx.foldlM (selectParam defaultLimit) ([], [])
  .ok st.2

def mixedSearchParamIndices (params : List SearchParam) : Except String (List ℕ) := do
  let filterOnly := params.zipIdx.filter fun p ↦ p.1.isFilterOnly
  let kept ← searchParamIndices defaultLimit (filterOnly.map fun p ↦ (p.1.parallel, p.1.top))
  let kept := kept.filterMap fun k ↦ filterOnly[k]?.map Prod.snd
  .ok ((params.zipIdx.filter fun p ↦ !p.1.isFilterOnly || kept.contains p.2).map Prod.snd)

end Loop

/-! ## The loop -/

variable {defaultLimit : Option ℤ}

/-- What the loop has found out about the search configs it has seen. -/
theorem foldlM_selectParam (ps : List (Option ℤ × Option ℤ)) :
    (∃ st, ps.zipIdx.foldlM (selectParam defaultLimit) ([], []) = .ok st ∧
      FirstsOf parallelOf (limitOf defaultLimit) ps st.1 st.2) ∨
    (∃ e, ps.zipIdx.foldlM (selectParam defaultLimit) ([], []) = .error e) ∧
      Conflict parallelOf (limitOf defaultLimit) ps := by
  induction ps using List.reverseRecOn with
  | nil => exact .inl ⟨_, rfl, .nil⟩
  | append_singleton ps p ih =>
      have hlast : (ps ++ [p]).zipIdx = ps.zipIdx ++ [(p, ps.length)] := by
        rw [List.zipIdx_append, Nat.zero_add, List.zipIdx_singleton]
      rw [hlast, List.foldlM_append]
      rcases ih with ⟨st, hst, hfirsts⟩ | ⟨⟨e, he⟩, x, hx, y, hy, hxy⟩
      · rw [hst, ok_bind, List.foldlM_cons, selectParam]
        dsimp only
        cases hlookup : st.1.lookup (parallelOf p) with
        | none => exact .inl ⟨_, rfl, hfirsts.keep hlookup⟩
        | some previous =>
            dsimp only
            split_ifs with hne
            · exact .inr ⟨⟨_, rfl⟩, hfirsts.conflict hlookup hne⟩
            · rw [not_not] at hne
              exact .inl ⟨st, rfl, hfirsts.skip (hlookup.trans (congrArg some hne))⟩
      · rw [he]
        exact .inr ⟨⟨e, rfl⟩, x, List.mem_append_left _ hx, y, List.mem_append_left _ hy, hxy⟩

theorem searchParamIndices_error_iff {ps : List (Option ℤ × Option ℤ)} :
    (∃ e, searchParamIndices defaultLimit ps = .error e) ↔
      Conflict parallelOf (limitOf defaultLimit) ps := by
  rw [searchParamIndices]
  rcases @foldlM_selectParam defaultLimit ps with
    ⟨st, hst, hfirsts⟩ | ⟨⟨e, he⟩, hconflict⟩
  · rw [hst]
    apply iff_of_false
    · rintro ⟨e, he⟩
      cases he
    · exact hfirsts.not_conflict
  · rw [he]
    exact iff_of_true ⟨e, rfl⟩ hconflict

theorem searchParamIndices_eq_ok {ps : List (Option ℤ × Option ℤ)} {is : List ℕ}
    (h : searchParamIndices defaultLimit ps = .ok is) :
    (∀ i, i ∈ is ↔ IsFirst parallelOf ps i) ∧ is.Pairwise (· < ·) := by
  obtain ⟨st, hst, h⟩ := bind_eq_ok.mp h
  cases h
  rcases @foldlM_selectParam defaultLimit ps with
    ⟨st', hst', hfirsts⟩ | ⟨⟨e, he⟩, -⟩
  · rw [hst] at hst'
    cases hst'
    exact ⟨hfirsts.mem, hfirsts.ascending⟩
  · rw [hst] at he
    cases he

/-! ## Among other search configs -/

namespace SearchParam

/-- The concurrency of a search config, one if none is given. -/
def concurrency (p : SearchParam) : ℤ := p.parallel.getD 1

variable (defaultLimit) in
/-- The result limit a search config demands. -/
def limit (p : SearchParam) : Option ℤ := p.top.orElse fun _ ↦ defaultLimit

end SearchParam

section Mixed

variable {params : List SearchParam}

/-- The filter-only search configs with their indices. -/
def filterOnlyParams (params : List SearchParam) : List (SearchParam × ℕ) :=
  params.zipIdx.filter fun p ↦ p.1.isFilterOnly

theorem mem_filterOnlyParams {p : SearchParam} {i : ℕ} :
    (p, i) ∈ filterOnlyParams params ↔ params[i]? = some p ∧ p.isFilterOnly = true := by
  rw [filterOnlyParams, List.mem_filter, List.mem_zipIdx_iff_getElem?]

/-- The first filter-only search configs of their concurrency, by their places among all. -/
theorem isFirst_filterOnlyParams {i k : ℕ} {p : SearchParam}
    (hk : (filterOnlyParams params)[k]? = some (p, i)) :
    IsFirst (fun p : SearchParam × ℕ ↦ p.1.concurrency) (filterOnlyParams params) k ↔
      ∀ j < i, ∀ q, params[j]? = some q → q.isFilterOnly = true →
        q.concurrency ≠ p.concurrency := by
  have hasc : (filterOnlyParams params).Pairwise fun p q ↦ p.2 < q.2 :=
    (pairwise_zipIdx params 0).sublist List.filter_sublist
  obtain ⟨hlt, hget⟩ := List.getElem?_eq_some_iff.mp hk
  constructor
  · rintro ⟨x, hx, hfirst⟩ j hj q hq hfilter
    rw [hk] at hx
    cases hx
    obtain ⟨l, hl, hgetl⟩ := List.getElem_of_mem (mem_filterOnlyParams.mpr ⟨hq, hfilter⟩)
    refine hfirst l ?_ (q, j) (List.getElem?_eq_some_iff.mpr ⟨hl, hgetl⟩)
    rcases lt_trichotomy l k with hlk | rfl | hlk
    · exact hlk
    · rw [hget] at hgetl
      cases hgetl
      exact absurd hj (lt_irrefl _)
    · have hbelow := List.pairwise_iff_getElem.mp hasc k l hlt hl hlk
      rw [hget, hgetl] at hbelow
      exact absurd hj (lt_asymm hbelow)
  · intro hfirst
    refine ⟨(p, i), hk, fun l hl y hy ↦ ?_⟩
    obtain ⟨q, j⟩ := y
    obtain ⟨hl', hgetl⟩ := List.getElem?_eq_some_iff.mp hy
    have hbelow := List.pairwise_iff_getElem.mp hasc l k hl' hlt hl
    rw [hget, hgetl] at hbelow
    obtain ⟨hq, hfilter⟩ := mem_filterOnlyParams.mp (List.mem_of_getElem? hy)
    exact hfirst j hbelow q hq hfilter

/-- The places of the filter-only search configs that are kept. -/
theorem mem_kept {kept : List ℕ}
    (hkept : ∀ k, k ∈ kept ↔
      IsFirst parallelOf ((filterOnlyParams params).map fun p ↦ (p.1.parallel, p.1.top)) k)
    {i : ℕ} {p : SearchParam} (hp : params[i]? = some p) (hfilter : p.isFilterOnly = true) :
    i ∈ kept.filterMap (fun k ↦ (filterOnlyParams params)[k]?.map Prod.snd) ↔
      ∀ j < i, ∀ q, params[j]? = some q → q.isFilterOnly = true →
        q.concurrency ≠ p.concurrency := by
  rw [List.mem_filterMap]
  constructor
  · rintro ⟨k, hk, hi⟩
    obtain ⟨⟨q, i⟩, hget, rfl⟩ := Option.map_eq_some_iff.mp hi
    have hq := (mem_filterOnlyParams.mp (List.mem_of_getElem? hget)).1
    rw [hp] at hq
    cases hq
    exact (isFirst_filterOnlyParams hget).mp (isFirst_map.mp ((hkept k).mp hk))
  · intro hfirst
    obtain ⟨k, hk, hget⟩ := List.getElem_of_mem (mem_filterOnlyParams.mpr ⟨hp, hfilter⟩)
    have hget' := List.getElem?_eq_some_iff.mpr ⟨hk, hget⟩
    refine ⟨k, (hkept k).mpr (isFirst_map.mpr ?_), by rw [hget']; rfl⟩
    exact (isFirst_filterOnlyParams hget').mpr hfirst

variable (defaultLimit) in
/-- Two filter-only search configs of one concurrency demand different result limits. -/
def LimitConflict (params : List SearchParam) : Prop :=
  ∃ p ∈ params, ∃ q ∈ params, p.isFilterOnly = true ∧ q.isFilterOnly = true ∧
    p.concurrency = q.concurrency ∧ p.limit defaultLimit ≠ q.limit defaultLimit

theorem conflict_filterOnlyParams :
    Conflict parallelOf (limitOf defaultLimit)
        ((filterOnlyParams params).map fun p ↦ (p.1.parallel, p.1.top)) ↔
      LimitConflict defaultLimit params := by
  have hmem : ∀ p, (∃ i, (p, i) ∈ filterOnlyParams params) ↔
      p ∈ params ∧ p.isFilterOnly = true := by
    intro p
    simp only [mem_filterOnlyParams, exists_and_right]
    rw [List.mem_iff_getElem?]
  rw [conflict_map]
  constructor
  · rintro ⟨⟨p, i⟩, hp, ⟨q, j⟩, hq, hkey, hlimit⟩
    obtain ⟨hp, hp'⟩ := (hmem p).mp ⟨i, hp⟩
    obtain ⟨hq, hq'⟩ := (hmem q).mp ⟨j, hq⟩
    exact ⟨p, hp, q, hq, hp', hq', hkey, hlimit⟩
  · rintro ⟨p, hp, q, hq, hp', hq', hkey, hlimit⟩
    obtain ⟨i, hi⟩ := (hmem p).mpr ⟨hp, hp'⟩
    obtain ⟨j, hj⟩ := (hmem q).mpr ⟨hq, hq'⟩
    exact ⟨(p, i), hi, (q, j), hj, hkey, hlimit⟩

/-- All search configs but those that repeat the concurrency of an earlier filter-only one
are kept, in their order; a conflict of result limits is the only error. -/
theorem mixedSearchParamIndices_spec (params : List SearchParam) (defaultLimit : Option ℤ) :
    (∀ is, mixedSearchParamIndices defaultLimit params = .ok is →
      is.Pairwise (· < ·) ∧
      ∀ i, i ∈ is ↔ ∃ p, params[i]? = some p ∧ (p.isFilterOnly = false ∨
        ∀ j < i, ∀ q, params[j]? = some q → q.isFilterOnly = true →
          q.concurrency ≠ p.concurrency)) ∧
    ((∃ e, mixedSearchParamIndices defaultLimit params = .error e) ↔
      LimitConflict defaultLimit params) := by
  rw [mixedSearchParamIndices, ← conflict_filterOnlyParams, ← searchParamIndices_error_iff,
    filterOnlyParams]
  cases hkept : searchParamIndices defaultLimit
      ((params.zipIdx.filter fun p ↦ p.1.isFilterOnly).map fun p ↦ (p.1.parallel, p.1.top)) with
  | error e =>
      refine ⟨fun is h ↦ ?_, iff_of_true ⟨e, rfl⟩ ⟨e, rfl⟩⟩
      cases h
  | ok kept =>
      rw [ok_bind]
      constructor
      · rintro is ⟨⟩
        have hfirsts := (searchParamIndices_eq_ok hkept).1
        constructor
        · rw [List.pairwise_map]
          exact (pairwise_zipIdx params 0).sublist List.filter_sublist
        · intro i
          simp only [List.mem_map, List.mem_filter, Prod.exists, exists_eq_right,
            List.mem_zipIdx_iff_getElem?, Bool.or_eq_true, Bool.not_eq_true', List.contains_eq_mem,
            decide_eq_true_eq]
          refine exists_congr fun p ↦ and_congr_right fun hp ↦ ?_
          cases hfilter : p.isFilterOnly with
          | false => exact iff_of_true (.inl rfl) (.inl rfl)
          | true =>
              rw [or_iff_right Bool.noConfusion, or_iff_right Bool.noConfusion]
              exact mem_kept hfirsts hp hfilter
      · apply iff_of_false
        · rintro ⟨e, ⟨⟩⟩
        · rintro ⟨e, ⟨⟩⟩

/-- An explicit concurrency of one and an explicit limit of ten agree with the defaults. -/
def mixedParams : List SearchParam :=
  [⟨true, none, some 10⟩, ⟨false, some 1, none⟩, ⟨true, some 1, none⟩, ⟨true, some 8, none⟩]

theorem mixedSearchParamIndices_mixedParams :
    ([0, 1, 3].Pairwise (· < ·) ∧
      ∀ i, i ∈ [0, 1, 3] ↔ ∃ p, mixedParams[i]? = some p ∧ (p.isFilterOnly = false ∨
        ∀ j < i, ∀ q, mixedParams[j]? = some q → q.isFilterOnly = true →
          q.concurrency ≠ p.concurrency)) ∧
    ∃ e, mixedSearchParamIndices none mixedParams = .error e := by
  refine ⟨(mixedSearchParamIndices_spec mixedParams (some 10)).1 [0, 1, 3] (by decide), ?_⟩
  refine (mixedSearchParamIndices_spec mixedParams none).2.mpr ?_
  exact ⟨⟨true, none, some 10⟩, by decide, ⟨true, some 1, none⟩, by decide, rfl, rfl,
    rfl, by decide⟩

end Mixed

end VectorDbBenchmark.FilterOnly
