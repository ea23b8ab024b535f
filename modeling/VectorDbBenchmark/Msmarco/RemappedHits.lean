import VectorDbBenchmark.Kit.LastWins
import VectorDbBenchmark.Msmarco.SampleCorpus
import VectorDbBenchmark.Msmarco.ShippedCheck

/-!
# Shipped hits on the rows of a corpus

`remap_shipped_hits` of `src/msmarco/preparation.rs`: the rankings that were shipped name passages
by docid, and are mapped onto the rows of the payload stream.  Only the docids that a ranking has
are remembered, each with its row and each row with its docid.
-/

namespace VectorDbBenchmark.Msmarco

open Kit

def totalPassages : ℕ := 113520750

def queryCount : ℕ := 1677

def shippedTopDepth : ℕ := 1000

/-- `a.saturating_mul(b)` of two `u64`. -/
def saturatingMul (a b : ℕ) : ℕ := min (a * b) (2 ^ 64 - 1)

/-- The least coverage, as queries and positions. -/
def coverageFloor (limit : ℕ) : ℕ × ℕ :=
  let uniform := saturatingMul (saturatingMul shippedTopDepth queryCount) limit /
    max totalPassages 1
  (queryCount / 20, max (uniform / 4) 100)

def checkCoverage (limit queriesChecked positionsCompared : ℕ) : Except String Unit :=
  let (minQueries, minPositions) := coverageFloor limit
  if queriesChecked < minQueries || positionsCompared < minPositions then
    .error (s!"ground-truth cross-check covered only {queriesChecked} queries / " ++
      s!"{positionsCompared} ranking positions, below the floor of {minQueries} / " ++
      s!"{minPositions} for a {limit}-passage prefix. The shipped top-1k is the only " ++
      "independent check on this ground truth, so publishing a corpus it barely " ++
      "touched would mean publishing an unverified one. Most likely the upstream " ++
      "top1k export changed shape, or the offsets are being mapped wrongly.")
  else .ok ()

structure RemappedHits where
  hits : List (List ShippedHit)
  docidAt : List (ℤ × String)

/-- The state of the loop. -/
structure Remapping where
  localOf : List (String × ℤ)
  docidAt : List (ℤ × String)
  rows : ℕ

section Model

variable (env : SampleEnv) (debug : String → String)

/-- One payload line with its row. -/
def remapRow (wanted : List String) (r : Remapping) (row : Except String Text × ℕ) :
    Except String Remapping := do
  let line ← row.1
  let docid ← (env.docid line).mapError fun e ↦ s!"payload row {row.2}: {e}"
  if docid ∈ wanted then
    if (r.localOf.lookup docid).isSome then .error s!"duplicate oracle docid {debug docid}"
    else pure ⟨insertKey docid row.2 r.localOf, insertKey (row.2 : ℤ) docid r.docidAt, r.rows + 1⟩
  else pure { r with rows := r.rows + 1 }

/-- The hits of a query that are in the corpus. -/
def remapQuery (localOf : List (String × ℤ)) (query : List ShippedHit) : List ShippedHit :=
  query.filterMap fun hit ↦ (localOf.lookup hit.passageId).map fun id ↦ { hit with offset := id }

/-- `remap_shipped_hits`. -/
def remapShippedHits (payloads : List (Except String Text)) (shipped : List (List ShippedHit))
    (expectedRows : ℕ) : Except String RemappedHits := do
  let wanted := shipped.flatMap fun query ↦ query.map ShippedHit.passageId
  let r ← payloads.zipIdx.foldlM (remapRow env debug wanted) ⟨[], [], 0⟩
  if r.rows ≠ expectedRows then
    .error s!"oracle remap read {r.rows} payloads, expected {expectedRows}"
  else do
    let hits := shipped.map (remapQuery r.localOf)
    checkCoverage expectedRows (hits.countP fun query ↦ !query.isEmpty) (hits.map List.length).sum
    pure ⟨hits, r.docidAt⟩

end Model

/-! ## The maps -/

section Maps

variable {env : SampleEnv} {debug : String → String} {wanted docids : List String}
  {payloads : List (Except String Text)} {r r' : Remapping}

variable (wanted docids) in
/-- A docid that is wanted, and a row that has it. -/
def HasRow (docid : String) (id : ℤ) : Prop :=
  ∃ i : ℕ, id = i ∧ docids[i]? = some docid ∧ docid ∈ wanted

variable (wanted docids) in
/-- After some rows both maps are the relation of wanted docids and rows. -/
structure Maps (r : Remapping) : Prop where
  rows : r.rows = docids.length
  localOf : ∀ docid id, r.localOf.lookup docid = some id ↔ HasRow wanted docids docid id
  docidAt : ∀ docid id, r.docidAt.lookup id = some docid ↔ HasRow wanted docids docid id

theorem hasRow_append {docid docid' : String} {id : ℤ} :
    HasRow wanted (docids ++ [docid']) docid id ↔ HasRow wanted docids docid id ∨
      docid = docid' ∧ docid ∈ wanted ∧ id = docids.length := by
  constructor
  · rintro ⟨i, rfl, hi, hwanted⟩
    rcases Nat.lt_or_ge i docids.length with hlt | hge
    · exact .inl ⟨i, rfl, List.getElem?_append_left hlt ▸ hi, hwanted⟩
    · rw [List.getElem?_append_right hge] at hi
      obtain ⟨hi', rfl⟩ := List.getElem?_eq_some_iff.mp hi
      rw [List.length_singleton, Nat.lt_one_iff] at hi'
      refine .inr ⟨by simp, hwanted, ?_⟩
      omega
  · rintro (⟨i, rfl, hi, hwanted⟩ | ⟨rfl, hwanted, rfl⟩)
    · obtain ⟨hlt, -⟩ := List.getElem?_eq_some_iff.mp hi
      exact ⟨i, rfl, (List.getElem?_append_left hlt).trans hi, hwanted⟩
    · exact ⟨docids.length, rfl, List.getElem?_concat_length, hwanted⟩

theorem not_hasRow_length (docid : String) : ¬ HasRow wanted docids docid docids.length := by
  rintro ⟨i, hi, hget, -⟩
  obtain ⟨hlt, -⟩ := List.getElem?_eq_some_iff.mp hget
  omega

/-- A line of the payloads has a docid. -/
def HasDocid (env : SampleEnv) (line : Except String Text) (docid : String) : Prop :=
  ∃ text, line = .ok text ∧ env.docid text = .ok docid

theorem HasDocid.unique {line : Except String Text} {docid docid' : String}
    (h : HasDocid env line docid) (h' : HasDocid env line docid') : docid = docid' := by
  obtain ⟨text, rfl, htext⟩ := h
  obtain ⟨text', hline, htext'⟩ := h'
  cases hline
  exact Except.ok.inj (htext.symm.trans htext')

theorem Maps.step (h : Maps wanted docids r) {line : Except String Text}
    (hrow : remapRow env debug wanted r (line, docids.length) = .ok r') :
    ∃ docid, HasDocid env line docid ∧ Maps wanted (docids ++ [docid]) r' := by
  obtain ⟨text, htext, hrow⟩ := bind_eq_ok.mp hrow
  obtain ⟨docid, hdocid, hrow⟩ := bind_eq_ok.mp hrow
  rw [mapError_eq_ok] at hdocid
  refine ⟨docid, ⟨text, htext, hdocid⟩, ?_⟩
  have hlength : (docids ++ [docid]).length = docids.length + 1 := List.length_append
  split_ifs at hrow with hwanted hdup
  · cases hrow
    rw [Option.not_isSome_iff_eq_none] at hdup
    have hnew : ∀ id, ¬ HasRow wanted docids docid id := fun id hid ↦ by
      cases hdup.symm.trans ((h.localOf docid id).mpr hid)
    refine ⟨hlength ▸ congrArg (· + 1) h.rows, fun d id ↦ ?_, fun d id ↦ ?_⟩
    · rw [hasRow_append, lookup_insertKey]
      split_ifs with hd
      · subst hd
        rw [or_iff_right (hnew id), Option.some.injEq]
        exact ⟨fun hid ↦ ⟨rfl, hwanted, hid.symm⟩, fun hid ↦ hid.2.2.symm⟩
      · rw [h.localOf, or_iff_left fun hd' ↦ hd hd'.1]
    · rw [hasRow_append, lookup_insertKey]
      split_ifs with hid
      · subst hid
        rw [or_iff_right (not_hasRow_length d), Option.some.injEq]
        exact ⟨fun hd ↦ ⟨hd.symm, hd ▸ hwanted, rfl⟩, fun hd ↦ hd.1.symm⟩
      · rw [h.docidAt, or_iff_left fun hd' ↦ hid hd'.2.2]
  · cases hrow
    have hsame : ∀ d id, HasRow wanted (docids ++ [docid]) d id ↔ HasRow wanted docids d id :=
      fun d id ↦ by
        rw [hasRow_append, or_iff_left]
        rintro ⟨rfl, hd, -⟩
        exact hwanted hd
    refine ⟨hlength ▸ congrArg (· + 1) h.rows, fun d id ↦ ?_, fun d id ↦ ?_⟩
    · rw [hsame, h.localOf]
    · rw [hsame, h.docidAt]

theorem Maps.run (h : Maps wanted docids r)
    (hrun : (payloads.zipIdx docids.length).foldlM (remapRow env debug wanted) r = .ok r') :
    ∃ more, List.Forall₂ (HasDocid env) payloads more ∧ Maps wanted (docids ++ more) r' := by
  induction payloads generalizing docids r with
  | nil =>
      cases hrun
      exact ⟨[], .nil, (List.append_nil docids).symm ▸ h⟩
  | cons line payloads ih =>
      rw [List.zipIdx_cons, List.foldlM_cons] at hrun
      obtain ⟨r₁, hrow, hrun⟩ := bind_eq_ok.mp hrun
      obtain ⟨docid, hdocid, h⟩ := h.step hrow
      have hlength : docids.length + 1 = (docids ++ [docid]).length := by
        rw [List.length_append, List.length_singleton]
      rw [hlength] at hrun
      obtain ⟨more, hmore, h⟩ := ih h hrun
      rw [List.append_assoc, List.singleton_append] at h
      exact ⟨docid :: more, .cons hdocid hmore, h⟩

/-! ## The remapped rankings -/

/-- The docids of the shipped rankings. -/
def shippedDocids (shipped : List (List ShippedHit)) : List String :=
  shipped.flatMap fun query ↦ query.map ShippedHit.passageId

theorem mem_shippedDocids {shipped : List (List ShippedHit)} {query : List ShippedHit}
    {hit : ShippedHit} (hquery : query ∈ shipped) (hhit : hit ∈ query) :
    hit.passageId ∈ shippedDocids shipped :=
  List.mem_flatMap.mpr ⟨query, hquery, List.mem_map_of_mem hhit⟩

/-- A ranking on the rows that have its docids. -/
def onRows (docids : List String) (query : List ShippedHit) : List ShippedHit :=
  (query.filter fun hit ↦ hit.passageId ∈ docids).map fun hit ↦
    { hit with offset := docids.idxOf hit.passageId }

/-- What a remapping is, for the docids of the rows. -/
structure Remaps (env : SampleEnv) (payloads : List (Except String Text))
    (shipped : List (List ShippedHit)) (expectedRows : ℕ) (docids : List String)
    (out : RemappedHits) : Prop where
  docids_eq : List.Forall₂ (HasDocid env) payloads docids
  rows : payloads.length = expectedRows
  unique : ∀ docid ∈ shippedDocids shipped, ∀ i j : ℕ, docids[i]? = some docid →
    docids[j]? = some docid → i = j
  hits : out.hits = shipped.map (onRows docids)
  docidAt : ∀ docid id,
    out.docidAt.lookup id = some docid ↔ HasRow (shippedDocids shipped) docids docid id
  agree : ∀ query ∈ out.hits, ∀ hit ∈ query, out.docidAt.lookup hit.offset = some hit.passageId

theorem Maps.lookup_eq (h : Maps wanted docids r) {docid : String} (hwanted : docid ∈ wanted) :
    r.localOf.lookup docid = if docid ∈ docids then some (docids.idxOf docid : ℤ) else none := by
  split_ifs with hmem
  · rw [h.localOf]
    exact ⟨docids.idxOf docid, rfl, List.getElem?_idxOf hmem, hwanted⟩
  · rw [Option.eq_none_iff_forall_ne_some]
    intro id hid
    obtain ⟨i, -, hi, -⟩ := (h.localOf docid id).mp hid
    exact hmem (List.mem_of_getElem? hi)

theorem Maps.remapQuery_eq (h : Maps wanted docids r) {query : List ShippedHit}
    (hquery : ∀ hit ∈ query, hit.passageId ∈ wanted) :
    remapQuery r.localOf query = onRows docids query := by
  induction query with
  | nil => rfl
  | cons hit query ih =>
      rw [List.forall_mem_cons] at hquery
      rw [remapQuery, onRows, List.filterMap_cons, List.filter_cons, h.lookup_eq hquery.1]
      by_cases hmem : hit.passageId ∈ docids
      · rw [if_pos hmem, if_pos (decide_eq_true hmem), List.map_cons]
        exact congrArg _ (ih hquery.2)
      · rw [if_neg hmem, if_neg (mt of_decide_eq_true hmem)]
        exact ih hquery.2

theorem remaps_of_ok {shipped : List (List ShippedHit)} {expectedRows : ℕ} {out : RemappedHits}
    (h : remapShippedHits env debug payloads shipped expectedRows = .ok out) :
    ∃ docids, Remaps env payloads shipped expectedRows docids out := by
  rw [remapShippedHits] at h
  obtain ⟨r, hloop, h⟩ := bind_eq_ok.mp h
  split_ifs at h with hrows
  obtain ⟨-, -, h⟩ := bind_eq_ok.mp h
  cases h
  have hempty : Maps (shippedDocids shipped) [] ⟨[], [], 0⟩ := by
    refine ⟨rfl, fun docid id ↦ ⟨by rintro ⟨⟩, ?_⟩, fun docid id ↦ ⟨by rintro ⟨⟩, ?_⟩⟩ <;>
    · rintro ⟨i, -, hi, -⟩
      cases hi
  obtain ⟨docids, hdocids, hmaps⟩ := hempty.run hloop
  rw [List.nil_append] at hmaps
  have hmapped : shipped.map (remapQuery r.localOf) = shipped.map (onRows docids) :=
    List.map_congr_left fun query hquery ↦
      hmaps.remapQuery_eq fun hit hhit ↦ mem_shippedDocids hquery hhit
  refine ⟨docids, hdocids, ?_, fun docid hdocid i j hi hj ↦ ?_, hmapped, hmaps.docidAt, ?_⟩
  · rw [hdocids.length_eq, ← hmaps.rows]
    exact not_not.mp hrows
  · have hi := (hmaps.localOf docid i).mpr ⟨i, rfl, hi, hdocid⟩
    have hj := (hmaps.localOf docid j).mpr ⟨j, rfl, hj, hdocid⟩
    exact Int.ofNat.inj (Option.some.inj (hi.symm.trans hj))
  · intro query hquery hit hhit
    obtain ⟨source, hsource, rfl⟩ := List.mem_map.mp (hmapped ▸ hquery)
    obtain ⟨hit', hhit', rfl⟩ := List.mem_map.mp hhit
    obtain ⟨hmem, hin⟩ := List.mem_filter.mp hhit'
    have hshipped : hit'.passageId ∈ shippedDocids shipped := mem_shippedDocids hsource hmem
    exact (hmaps.docidAt _ _).mpr ⟨_, rfl, List.getElem?_idxOf (of_decide_eq_true hin), hshipped⟩

/-- Every result is the shipped rankings on the rows that have their docids, and a shipped docid
of two rows is an error. -/
theorem remap_shipped_hits (env : SampleEnv) (debug : String → String)
    (payloads : List (Except String Text)) (shipped : List (List ShippedHit)) (expectedRows : ℕ) :
    (∀ out, remapShippedHits env debug payloads shipped expectedRows = .ok out →
      ∃ docids, Remaps env payloads shipped expectedRows docids out) ∧
      ∀ docid ∈ shippedDocids shipped, ∀ (i j : ℕ) (line line' : Except String Text), i ≠ j →
        payloads[i]? = some line → payloads[j]? = some line' →
        HasDocid env line docid → HasDocid env line' docid →
        ∃ e, remapShippedHits env debug payloads shipped expectedRows = .error e := by
  refine ⟨fun out h ↦ remaps_of_ok h, ?_⟩
  intro docid hdocid i j line line' hij hi hj hline hline'
  cases h : remapShippedHits env debug payloads shipped expectedRows with
  | error e => exact ⟨e, rfl⟩
  | ok out =>
      obtain ⟨docids, hout⟩ := remaps_of_ok h
      have hrow : ∀ (k : ℕ) (l : Except String Text), payloads[k]? = some l →
          HasDocid env l docid → docids[k]? = some docid := by
        intro k l hk hl
        obtain ⟨hlt, rfl⟩ := List.getElem?_eq_some_iff.mp hk
        have hlt' : k < docids.length := hout.docids_eq.length_eq ▸ hlt
        rw [List.getElem?_eq_getElem hlt']
        exact congrArg some ((hout.docids_eq.get hlt hlt').unique hl)
      exact absurd (hout.unique docid hdocid i j (hrow i line hi hline)
        (hrow j line' hj hline')) hij

end Maps

end VectorDbBenchmark.Msmarco
