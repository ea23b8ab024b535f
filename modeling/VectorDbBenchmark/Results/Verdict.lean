import VectorDbBenchmark.Results.Directories
import VectorDbBenchmark.Results.Swap

/-!
# The verdict of a comparison

What a report says about two sets of dumps, assembled from the pairing, the
report of one pair, and the two symmetries.

Putting the records of every dump into `seq` order changes nothing in the
comparison, so two dumps that hold the same records, told apart by `seq`, are
interchangeable.
-/

namespace VectorDbBenchmark.Results

open Kit

/-! ## The order of the records -/

/-- The dump with its records in `seq` order. -/
def Dump.inOrder (d : Dump) : Dump := { d with records := sortByKey QueryRecord.seq d.records }

/-- A named dump with its records in `seq` order. -/
def inOrder (d : NamedDump) : NamedDump := (d.1, d.2.inOrder)

theorem sortByKey_sortByKey (rs : List QueryRecord) :
    sortByKey QueryRecord.seq (sortByKey QueryRecord.seq rs) = sortByKey QueryRecord.seq rs :=
  (pairwise_sortByKey QueryRecord.seq rs).insertionSort_eq

theorem firstAnswers_inOrder (d : Dump) :
    firstAnswers d.inOrder.records = firstAnswers d.records := by
  rw [Dump.inOrder, firstAnswers, sortByKey_sortByKey]
  rfl

theorem perm_queryIds_inOrder (d : Dump) :
    (d.inOrder.records.map QueryRecord.queryId).Perm (d.records.map QueryRecord.queryId) :=
  (perm_sortByKey QueryRecord.seq d.records).map _

theorem sideInfo_inOrder (file : String) (d : Dump) :
    sideInfo file d.inOrder = sideInfo file d := by
  have hfailed : d.inOrder.records.countP (fun r ↦ !r.answered) =
      d.records.countP fun r ↦ !r.answered := (perm_sortByKey QueryRecord.seq d.records).countP_eq _
  rw [sideInfo, firstAnswers_inOrder, sideInfo, hfailed,
    sortedSet_congr fun _ ↦ (perm_queryIds_inOrder d).mem_iff]
  rfl

/-- The report of a pair does not see the order of the records. -/
theorem comparePair_inOrder (r c : NamedDump) :
    comparePair (inOrder r) (inOrder c) = comparePair r c := by
  have hall : sortedSet ((r.2.inOrder.records ++ c.2.inOrder.records).map QueryRecord.queryId) =
      sortedSet ((r.2.records ++ c.2.records).map QueryRecord.queryId) := by
    refine sortedSet_congr fun q ↦ ?_
    rw [List.map_append, List.map_append]
    exact ((perm_queryIds_inOrder r.2).append (perm_queryIds_inOrder c.2)).mem_iff
  simp only [comparePair, inOrder, hall, firstAnswers_inOrder, sideInfo_inOrder]
  rfl

/-! ## The sides -/

/-- The entry of a map with the records of its dump in order. -/
def entryInOrder (a : PairKey × NamedDump) : PairKey × NamedDump := (a.1, inOrder a.2)

theorem find?_entryInOrder (k : PairKey) (m : DumpIndex) :
    (m.map entryInOrder).find? (·.1 = k) = (m.find? (·.1 = k)).map entryInOrder := by
  rw [List.find?_map]
  rfl

theorem indexFrom_inOrder (label : String) (out : DumpIndex) (side : List NamedDump) :
    indexFrom label (out.map entryInOrder) (side.map inOrder) =
      (indexFrom label out side).map (List.map entryInOrder) := by
  induction side generalizing out with
  | nil => rfl
  | cons e side ih =>
      have hkey : key (inOrder e).2 = key e.2 := rfl
      rw [List.map_cons, indexFrom, indexFrom, hkey, find?_entryInOrder]
      cases out.find? (·.1 = key e.2) with
      | some prev => rfl
      | none =>
          have hinsert := List.map_orderedInsert (fun a b : PairKey × NamedDump ↦ a.1 ≤ b.1)
            (fun a b : PairKey × NamedDump ↦ a.1 ≤ b.1) entryInOrder out (key e.2, e)
            (fun a _ ↦ Iff.rfl) (fun a _ ↦ Iff.rfl)
          simp only [Option.map_none, ← ih, hinsert]
          rfl

theorem pairUp_inOrder (r c : DumpIndex) :
    pairUp (r.map entryInOrder) (c.map entryInOrder) = pairUp r c := by
  induction r generalizing c with
  | nil =>
      rw [List.map_nil, pairUp, pairUp, List.map_map]
      rfl
  | cons a r ih =>
      obtain ⟨k, d⟩ := a
      have hfilter : (c.map entryInOrder).filter (·.1 ≠ k) =
          (c.filter (·.1 ≠ k)).map entryInOrder := by
        rw [List.filter_map]
        rfl
      rw [List.map_cons, entryInOrder, pairUp, pairUp, find?_entryInOrder, hfilter, ih, ih]
      cases c.find? (·.1 = k) with
      | some e => simp only [Option.map_some, entryInOrder, comparePair_inOrder]
      | none => rfl

theorem pairSides_inOrder (r c : List NamedDump) :
    pairSides (r.map inOrder) (c.map inOrder) = pairSides r c := by
  by_cases h : SingleFiles r c
  · obtain ⟨⟨d, rfl⟩, ⟨e, rfl⟩⟩ := And.imp List.length_eq_one_iff.mp List.length_eq_one_iff.mp h
    change (comparePair (inOrder d) (inOrder e) >>= _) = (comparePair d e >>= _)
    rw [comparePair_inOrder]
  · have h' : ¬SingleFiles (r.map inOrder) (c.map inOrder) := by
      rw [SingleFiles, List.length_map, List.length_map]
      exact h
    have hindex : ∀ label side, index (side.map inOrder) label =
        (index side label).map (List.map entryInOrder) :=
      fun label side ↦ indexFrom_inOrder label [] side
    rw [pairSides_of_not_single h, pairSides_of_not_single h', hindex, hindex]
    cases index r "reference" with
    | error e => rfl
    | ok ri =>
        cases index c "candidate" with
        | error e => rfl
        | ok ci => exact pairUp_inOrder ri ci

theorem roles_inOrder (first second : List NamedDump) (engine : String) :
    roles (first.map inOrder) (second.map inOrder) engine =
      (roles first second engine).map fun s ↦ (s.1.map inOrder, s.2.map inOrder) := by
  have hall : ∀ side : List NamedDump, ((side.map inOrder).all fun d ↦ names d.2 engine) =
      side.all fun d ↦ names d.2 engine := fun side ↦ List.all_map
  rw [roles, roles, hall, hall]
  split_ifs <;> rfl

/-- The comparison does not see the order of the records. -/
theorem compare_inOrder (first second : List NamedDump) (engine : String) :
    compare (first.map inOrder) (second.map inOrder) engine = compare first second engine := by
  rw [compare, compare, roles_inOrder, List.isEmpty_map, List.isEmpty_map]
  cases roles first second engine with
  | error e => rfl
  | ok s =>
      simp only [Except.map, ok_bind, pairSides_inOrder]

/-! ## Reordered dumps -/

/-- The same file with its records, which differ in `seq`, in another order. -/
structure Reordered (d e : NamedDump) : Prop where
  file : d.1 = e.1
  header : d.2.header = e.2.header
  records : d.2.records.Perm e.2.records
  distinctSeq : (d.2.records.map QueryRecord.seq).Nodup

theorem Reordered.inOrder_eq {d e : NamedDump} (h : Reordered d e) : inOrder d = inOrder e := by
  have hsorted : sortByKey QueryRecord.seq d.2.records = sortByKey QueryRecord.seq e.2.records :=
    sortByKey_eq_of_perm h.records fun a ha b hb ↦ List.inj_on_of_nodup_map h.distinctSeq ha hb
  rw [inOrder, inOrder, Dump.inOrder, Dump.inOrder, hsorted, h.file, h.header]

/-- Reordering the records inside the dumps of both sides gives the same report, or
the same error. -/
theorem compare_reordered {first second first' second' : List NamedDump} (engine : String)
    (hf : List.Forall₂ Reordered first first') (hs : List.Forall₂ Reordered second second') :
    compare first' second' engine = compare first second engine := by
  have hmap : ∀ {side side' : List NamedDump}, List.Forall₂ Reordered side side' →
      side.map inOrder = side'.map inOrder := by
    intro side side' h
    rw [← List.forall₂_eq_eq_eq, List.forall₂_map_left_iff, List.forall₂_map_right_iff]
    exact h.imp fun d e hde ↦ hde.inOrder_eq
  rw [← compare_inOrder first', ← hmap hf, ← hmap hs, compare_inOrder]

/-! ## The verdict -/

/-- Every dump of the side names the engine. -/
def NamesAll (side : List NamedDump) (engine : String) : Prop :=
  (side.all fun d ↦ names d.2 engine) = true

instance (side : List NamedDump) (engine : String) : Decidable (NamesAll side engine) :=
  inferInstanceAs (Decidable (_ = true))

/-- The comparison is not refused: both sides hold dumps, one of them is the
reference engine's, and the sides can be compared. -/
structure Accepted (first second : List NamedDump) (engine : String) : Prop where
  first_ne_nil : first ≠ []
  second_ne_nil : second ≠ []
  reference : NamesAll first engine ∨ NamesAll second engine
  sides : SidesComparable first second

/-- The roles are the two sides, in one order or the other. -/
theorem roles_eq_ok {first second r c : List NamedDump} {engine : String} :
    roles first second engine = .ok (r, c) ↔
      (NamesAll first engine ∧ r = first ∧ c = second) ∨
        (¬NamesAll first engine ∧ NamesAll second engine ∧ r = second ∧ c = first) := by
  rw [roles]
  change (if NamesAll first engine then _ else if NamesAll second engine then _ else _) = _ ↔ _
  split_ifs with hf hs
  · simp [hf, eq_comm]
  · simp [hf, hs, eq_comm]
  · simp [hf, hs]

/-- Whatever holds of the sides in either order holds of the roles. -/
theorem of_roles {p : List NamedDump → List NamedDump → Prop} (hsymm : ∀ r c, p r c → p c r)
    {first second r c : List NamedDump} {engine : String}
    (h : roles first second engine = .ok (r, c)) : p first second ↔ p r c := by
  rcases roles_eq_ok.mp h with ⟨-, rfl, rfl⟩ | ⟨-, -, rfl, rfl⟩
  · rfl
  · exact ⟨hsymm _ _, hsymm _ _⟩

/-- The comparison returns a report exactly when it is accepted. -/
theorem exists_report_iff {first second : List NamedDump} {engine : String} :
    (∃ report, compare first second engine = .ok report) ↔ Accepted first second engine := by
  simp only [compare_eq_ok]
  constructor
  · rintro ⟨report, r, c, hroles, hf, hs, hsides, -⟩
    refine ⟨hf, hs, ?_, (of_roles (p := SidesComparable) ?_ hroles).mpr hsides⟩
    · rcases roles_eq_ok.mp hroles with ⟨h, -, -⟩ | ⟨-, h, -, -⟩
      · exact .inl h
      · exact .inr h
    · exact fun _ _ ↦ SidesComparable.symm
  · rintro ⟨hf, hs, href, hsides⟩
    by_cases hfirst : NamesAll first engine
    · exact ⟨_, first, second, roles_eq_ok.mpr (.inl ⟨hfirst, rfl, rfl⟩), hf, hs, hsides, rfl⟩
    · exact ⟨_, second, first, roles_eq_ok.mpr (.inr ⟨hfirst, href.resolve_left hfirst, rfl, rfl⟩),
        hf, hs, hsides.symm, rfl⟩

/-- Both sides attempted the same queries wherever they meet, and no attempt failed. -/
def SameQueriesNoFailures (first second : List NamedDump) : Prop :=
  (∀ d ∈ first ++ second, d.2.Clean) ∧
    ∀ d e, Paired first second d e → d.2.attempted = e.2.attempted

theorem SameQueriesNoFailures.symm {first second : List NamedDump}
    (h : SameQueriesNoFailures first second) : SameQueriesNoFailures second first := by
  refine ⟨fun d hd ↦ h.1 d ?_, fun d e hp ↦ (h.2 e d hp.symm).symm⟩
  rw [List.mem_append] at hd ⊢
  exact hd.symm

/-- With a counterpart for every dump, the pairs see every record. -/
theorem InBijection.forall_paired {r c : List NamedDump} (h : InBijection r c) :
    (∀ d e, Paired r c d e → (d.2.Clean ∧ e.2.Clean) ∧ d.2.attempted = e.2.attempted) ↔
      SameQueriesNoFailures r c := by
  constructor
  · intro hall
    refine ⟨fun d hd ↦ ?_, fun d e hp ↦ (hall d e hp).2⟩
    rcases List.mem_append.mp hd with hd | hd
    · obtain ⟨e, hp, -⟩ := h.1 d hd
      exact (hall d e hp).1.1
    · obtain ⟨e, hp, -⟩ := h.2 d hd
      exact (hall e d hp).1.2
  · rintro ⟨hclean, hsame⟩ d e hp
    refine ⟨⟨hclean d ?_, hclean e ?_⟩, hsame d e hp⟩
    · exact List.mem_append_left _ hp.left
    · exact List.mem_append_right _ hp.right

/-- The sides in the other order: exchanged roles when either side could be the
reference, the same report when only one can. -/
theorem compare_swap {first second : List NamedDump} {engine : String} {report : Report}
    (h : compare first second engine = .ok report) :
    ∃ report', compare second first engine = .ok report' ∧
      if NamesAll first engine ∧ NamesAll second engine then
        ReportExchanged first second report report' else report' = report := by
  obtain ⟨r, c, hroles, hf, hs, hsides, rfl⟩ := compare_eq_ok.mp h
  rcases roles_eq_ok.mp hroles with ⟨hfirst, rfl, rfl⟩ | ⟨hfirst, hsecond, rfl, rfl⟩
  · by_cases hsecond : NamesAll c engine
    · refine ⟨reportOf c r engine, compare_eq_ok.mpr ⟨c, r, ?_, hs, hf, hsides.symm, rfl⟩, ?_⟩
      · exact roles_eq_ok.mpr (.inl ⟨hsecond, rfl, rfl⟩)
      · rw [if_pos ⟨hfirst, hsecond⟩]
        exact reportOf_swap engine hsides
    · refine ⟨reportOf r c engine, compare_eq_ok.mpr ⟨r, c, ?_, hs, hf, hsides, rfl⟩, ?_⟩
      · exact roles_eq_ok.mpr (.inr ⟨hsecond, hfirst, rfl, rfl⟩)
      · rw [if_neg fun hboth ↦ hsecond hboth.2]
  · refine ⟨reportOf r c engine, compare_eq_ok.mpr ⟨r, c, ?_, hs, hf, hsides, rfl⟩, ?_⟩
    · exact roles_eq_ok.mpr (.inl ⟨hsecond, rfl, rfl⟩)
    · rw [if_neg fun hboth ↦ hfirst hboth.1]

/-- The comparison of two sets of dumps returns a report exactly when it is accepted,
and then the report passes exactly when the dumps are in bijection, no attempt
failed and counterparts attempted the same queries; every pair counts every query
once; the order of the records does not matter; and the order of the sides matters
only for the roles. -/
theorem compare_verdict (first second : List NamedDump) (engine : String) :
    ((∃ report, compare first second engine = .ok report) ↔ Accepted first second engine) ∧
    ∀ report, compare first second engine = .ok report →
      (report.passed = true ↔ InBijection first second ∧ SameQueriesNoFailures first second) ∧
      (∃ r c, roles first second engine = .ok (r, c) ∧
        (∀ d e, Paired r c d e → pairReport d e ∈ report.pairs) ∧
        ∀ p ∈ report.pairs, ∃ d e, Paired r c d e ∧ p = pairReport d e ∧ CountsOnce d.2 e.2 p) ∧
      (∀ first' second', List.Forall₂ Reordered first first' →
        List.Forall₂ Reordered second second' → compare first' second' engine = .ok report) ∧
      ∃ report', compare second first engine = .ok report' ∧
        if NamesAll first engine ∧ NamesAll second engine then
          ReportExchanged first second report report' else report' = report := by
  refine ⟨exists_report_iff, fun report h ↦ ⟨?_, ?_, ?_, compare_swap h⟩⟩
  · obtain ⟨r, c, hroles, -, -, hsides, rfl⟩ := compare_eq_ok.mp h
    rw [passed_reportOf hsides.keysDistinct]
    have hverdict : InBijection r c ∧
        (∀ d e, Paired r c d e → (d.2.Clean ∧ e.2.Clean) ∧ d.2.attempted = e.2.attempted) ↔
          InBijection r c ∧ SameQueriesNoFailures r c :=
      and_congr_right fun hbij ↦ hbij.forall_paired
    rw [hverdict]
    exact (of_roles (p := fun a b ↦ InBijection a b ∧ SameQueriesNoFailures a b)
      (fun _ _ hp ↦ ⟨hp.1.symm, hp.2.symm⟩) hroles).symm
  · obtain ⟨r, c, hroles, -, -, hsides, rfl⟩ := compare_eq_ok.mp h
    refine ⟨r, c, hroles, fun d e hp ↦ ?_, fun p hp ↦ ?_⟩
    · exact List.mem_map.mpr ⟨(d, e), (mem_pairing hsides.keysDistinct).mpr hp, rfl⟩
    · obtain ⟨⟨d, e⟩, hde, rfl⟩ := List.mem_map.mp hp
      exact ⟨d, e, (mem_pairing hsides.keysDistinct).mp hde, rfl, countsOnce_pairReport d e⟩
  · intro first' second' hf hs
    rw [compare_reordered engine hf hs, h]

/-! ## Two runs -/

/-- A pass of one engine at `parallel`, with the given records. -/
def vectorPass (engine : String) (parallel : ℕ) (records : List QueryRecord) : Dump :=
  { header :=
      { schemaVersion := 1, engine, config := engine ++ "-default", dataset := "random-100",
        workload := .vector, parallel, top := 2, searchId := 0, idSpace := .row,
        indexLayout := none, compoundIdentity := none }
    records }

/-- The answer to a query, with its ground truth. -/
def answerTo (queryId seq : ℕ) (shape : Option String) (ids expected : List String) :
    QueryRecord :=
  { queryId, seq, shape, ids, scores := none, total := none, latency := .fin 1, error := none,
    expected := some expected }

/-- Two passes of each engine, at one and at four clients; the reference's records
are out of order. -/
def redisPasses : List NamedDump :=
  [("redis-p1", vectorPass "redis" 1
      [answerTo 1 1 none ["4", "2"] ["2", "4"], answerTo 0 0 none ["1"] ["1", "3"]]),
   ("redis-p4", vectorPass "redis" 4 [answerTo 0 0 none ["1", "3"] ["1", "3"]])]

def qdrantPasses : List NamedDump :=
  [("qdrant-p4", vectorPass "qdrant" 4 [answerTo 0 0 none ["3", "1"] ["1", "3"]]),
   ("qdrant-p1", vectorPass "qdrant" 1
      [answerTo 0 0 none ["1", "3"] ["1", "3"], answerTo 1 1 none ["2", "5"] ["2", "4"]])]

theorem compare_verdict_two_engines :
    ∃ report, compare redisPasses qdrantPasses "redis" = .ok report ∧
      (report.passed = true ↔ InBijection redisPasses qdrantPasses ∧
        SameQueriesNoFailures redisPasses qdrantPasses) ∧ report.passed = true := by
  have hpassed : ((compare redisPasses qdrantPasses "redis").toOption.map Report.passed) =
      some true := by decide
  obtain ⟨report, hreport, hpass⟩ := Option.map_eq_some_iff.mp hpassed
  have hok : compare redisPasses qdrantPasses "redis" = .ok report := by
    cases h : compare redisPasses qdrantPasses "redis" with
    | error e => simp [h, Except.toOption] at hreport
    | ok report' => simpa [h, Except.toOption] using hreport
  exact ⟨report, hok, ((compare_verdict redisPasses qdrantPasses "redis").2 report hok).1, hpass⟩

/-- Two single files pass although their keys differ; two dumps of one pass with the
same queries and no failures are refused when their ground truth differs; and
exchanging the sides changes the overlap and, where both label a query, its shape. -/
theorem compare_verdict_single_files :
    (((compare [("a", vectorPass "redis" 1 [answerTo 0 0 none ["1"] ["1"]])]
        [("b", vectorPass "qdrant" 4 [answerTo 0 0 none ["1"] ["1"]])] "redis").toOption.map
          Report.passed) = some true ∧
      key (vectorPass "redis" 1 [answerTo 0 0 none ["1"] ["1"]]) ≠
        key (vectorPass "qdrant" 4 [answerTo 0 0 none ["1"] ["1"]])) ∧
    (key (vectorPass "redis" 1 [answerTo 0 0 none ["1"] ["1"]]) =
        key (vectorPass "qdrant" 1 [answerTo 0 0 none ["1"] ["2"]]) ∧
      (compare [("a", vectorPass "redis" 1 [answerTo 0 0 none ["1"] ["1"]])]
        [("b", vectorPass "qdrant" 1 [answerTo 0 0 none ["1"] ["2"]])] "redis").toOption = none) ∧
    ((compare [("a", vectorPass "redis" 1 [answerTo 0 0 (some "x") ["1"] ["1"]])]
        [("b", vectorPass "redis" 1 [answerTo 0 0 (some "y") ["1", "2"] ["1"]])]
          "redis").toOption.map
          fun report ↦ report.pairs.map fun p ↦ p.shapes.map fun s ↦ (s.shape, s.overlapAtK)) =
      some [[("x", some 1)]] ∧
    ((compare [("b", vectorPass "redis" 1 [answerTo 0 0 (some "y") ["1", "2"] ["1"]])]
        [("a", vectorPass "redis" 1 [answerTo 0 0 (some "x") ["1"] ["1"]])] "redis").toOption.map
          fun report ↦ report.pairs.map fun p ↦ p.shapes.map fun s ↦ (s.shape, s.overlapAtK)) =
      some [[("y", some (1 / 2))]] := by
  with_unfolding_all decide

end VectorDbBenchmark.Results
