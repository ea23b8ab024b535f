import VectorDbBenchmark.Results.Pairs

/-!
# Pairing two sets of dumps

Two single files are paired whatever they hold; directories are paired by key.
`Paired` says which dumps that are, without the order of the maps, and the loops over
the maps are shown to compare exactly these.
-/

namespace VectorDbBenchmark.Results

open Kit

/-- Both sides are a single file. -/
def SingleFiles (first second : List NamedDump) : Prop := first.length = 1 ∧ second.length = 1

instance (first second : List NamedDump) : Decidable (SingleFiles first second) :=
  inferInstanceAs (Decidable (_ ∧ _))

/-- The dumps `d` and `e` are compared with each other. -/
structure Paired (first second : List NamedDump) (d e : NamedDump) : Prop where
  left : d ∈ first
  right : e ∈ second
  matching : SingleFiles first second ∨ key d.2 = key e.2

/-- Every dump has exactly one counterpart on the other side. -/
def InBijection (first second : List NamedDump) : Prop :=
  (∀ d ∈ first, ∃! e, Paired first second d e) ∧ ∀ e ∈ second, ∃! d, Paired first second d e

theorem SingleFiles.symm {first second : List NamedDump} (h : SingleFiles first second) :
    SingleFiles second first := ⟨h.2, h.1⟩

theorem Paired.symm {first second : List NamedDump} {d e : NamedDump}
    (h : Paired first second d e) : Paired second first e d :=
  ⟨h.right, h.left, h.matching.imp SingleFiles.symm Eq.symm⟩

theorem InBijection.symm {first second : List NamedDump} (h : InBijection first second) :
    InBijection second first := by
  have hiff : ∀ d e, Paired second first d e ↔ Paired first second e d :=
    fun d e ↦ ⟨Paired.symm, Paired.symm⟩
  simp only [InBijection, hiff]
  exact ⟨h.2, h.1⟩

/-! ## The maps by key -/

/-- The dumps of a side under their keys. -/
def keyed (side : List NamedDump) : DumpIndex := side.map fun e ↦ (key e.2, e)

@[simp] theorem mem_keyed {side : List NamedDump} {k : PairKey} {d : NamedDump} :
    (k, d) ∈ keyed side ↔ d ∈ side ∧ key d.2 = k := by
  simp only [keyed, List.mem_map, Prod.mk.injEq]
  exact ⟨fun ⟨e, he, hk, hd⟩ ↦ hd ▸ ⟨he, hk⟩, fun ⟨hd, hk⟩ ↦ ⟨d, hd, hk, rfl⟩⟩

theorem map_fst_keyed (side : List NamedDump) :
    (keyed side).map Prod.fst = side.map fun e ↦ key e.2 := by
  rw [keyed, List.map_map]
  rfl

/-- The map in ascending order of its keys. -/
def byKey (side : List NamedDump) : DumpIndex := sortByKey Prod.fst (keyed side)

/-- The rounds of `index` put the entries in order and stop at a repeated key. -/
theorem indexFrom_eq_ok {label : String} {out m : DumpIndex} {side : List NamedDump}
    (hout : (out.map Prod.fst).Nodup) (hsorted : out.Pairwise fun a b ↦ a.1 ≤ b.1) :
    indexFrom label out side = .ok m ↔
      (out.map Prod.fst ++ side.map fun e ↦ key e.2).Nodup ∧
        m.Pairwise (fun a b ↦ a.1 ≤ b.1) ∧ m.Perm (out ++ keyed side) := by
  induction side generalizing out with
  | nil =>
      have heq : out = m ↔ m.Pairwise (fun a b ↦ a.1 ≤ b.1) ∧ m.Perm out := by
        constructor
        · rintro rfl
          exact ⟨hsorted, .refl _⟩
        · rintro ⟨hm, hperm⟩
          refine hperm.symm.eq_of_pairwise ?_ hsorted hm
          intro a b ha hb hab hba
          exact List.inj_on_of_nodup_map hout ha (hperm.mem_iff.mp hb) (le_antisymm hab hba)
      simpa [indexFrom, keyed, hout] using heq
  | cons e side ih =>
      rw [indexFrom]
      cases hfind : out.find? (·.1 = key e.2) with
      | some prev =>
          have hmem : key e.2 ∈ out.map Prod.fst := by
            have hkey := List.find?_some hfind
            rw [decide_eq_true_eq] at hkey
            exact hkey ▸ List.mem_map_of_mem (List.mem_of_find?_eq_some hfind)
          simp only [reduceCtorEq, false_iff, List.map_cons]
          rintro ⟨hnodup, -⟩
          exact (List.nodup_append.mp hnodup).2.2 _ hmem _ List.mem_cons_self rfl
      | none =>
          have hnot : key e.2 ∉ out.map Prod.fst := by
            intro h
            obtain ⟨a, ha, hk⟩ := List.mem_map.mp h
            exact absurd (decide_eq_true hk) (List.find?_eq_none.mp hfind a ha)
          have hperm := List.perm_orderedInsert (fun a b : PairKey × NamedDump ↦ a.1 ≤ b.1)
            (key e.2, e) out
          have : Std.Total fun a b : PairKey × NamedDump ↦ a.1 ≤ b.1 := ⟨fun a b ↦ le_total _ _⟩
          have : IsTrans (PairKey × NamedDump) fun a b ↦ a.1 ≤ b.1 := ⟨fun _ _ _ ↦ le_trans⟩
          rw [ih ((hperm.map Prod.fst).nodup_iff.mpr (List.nodup_cons.mpr ⟨hnot, hout⟩))
            (hsorted.orderedInsert _ _)]
          refine and_congr ?_ (and_congr_right fun _ ↦ ?_)
          · have hkeys := (hperm.map Prod.fst).append_right (side.map fun e ↦ key e.2)
            rw [hkeys.nodup_iff, List.map_cons, List.map_cons]
            exact List.perm_middle.symm.nodup_iff
          · have hentries := (hperm.append_right (keyed side)).trans List.perm_middle.symm
            exact ⟨fun h ↦ h.trans hentries, fun h ↦ h.trans hentries.symm⟩

/-- A side without repeated keys is indexed, in order of the keys. -/
theorem index_eq_ok {side : List NamedDump} {label : String} {m : DumpIndex} :
    index side label = .ok m ↔ (side.map fun e ↦ key e.2).Nodup ∧ m = byKey side := by
  have hnil : (([] : DumpIndex).map Prod.fst).Nodup := List.nodup_nil
  rw [index, indexFrom_eq_ok hnil List.Pairwise.nil, List.map_nil, List.nil_append,
    List.nil_append]
  refine and_congr_right fun hnodup ↦ ?_
  have hby := perm_sortByKey Prod.fst (keyed side)
  constructor
  · rintro ⟨hm, hperm⟩
    refine (hperm.trans hby.symm).eq_of_pairwise ?_ hm (pairwise_sortByKey _ _)
    intro a b ha hb hab hba
    rw [← map_fst_keyed] at hnodup
    exact List.inj_on_of_nodup_map hnodup (hperm.mem_iff.mp ha) (hby.mem_iff.mp hb)
      (le_antisymm hab hba)
  · rintro rfl
    exact ⟨pairwise_sortByKey _ _, hby⟩

/-! ## Pairing by key -/

/-- The entries of `r` with the entry of `c` under the same key. -/
def matched (r c : DumpIndex) : List (NamedDump × NamedDump) :=
  r.filterMap fun a ↦ (c.find? (·.1 = a.1)).map fun b ↦ (a.2, b.2)

/-- The entries of `r` whose key is not in `c`. -/
def without (r c : DumpIndex) : DumpIndex := r.filter fun a ↦ a.1 ∉ c.map Prod.fst

/-- The loop compares the matching entries and names the others. -/
theorem pairUp_eq {r c : DumpIndex} (hr : (r.map Prod.fst).Nodup) :
    pairUp r c = do
      let pairs ← (matched r c).mapM fun p ↦ comparePair p.1 p.2
      return (pairs, (without r c ++ without c r).map (·.2.1)) := by
  induction r generalizing c with
  | nil => simp [pairUp, matched, without, pure, Except.pure]
  | cons a r ih =>
      obtain ⟨k, d⟩ := a
      obtain ⟨hk, hr⟩ := List.nodup_cons.mp hr
      have hne : ∀ a ∈ r, a.1 ≠ k := fun a ha h ↦ hk (List.mem_map.mpr ⟨a, ha, h⟩)
      rw [pairUp]
      cases hfind : c.find? (·.1 = k) with
      | some e =>
          have hek : e.1 = k := by simpa using List.find?_some hfind
          have hmatched : matched r (c.filter (·.1 ≠ k)) = matched r c := by
            refine List.filterMap_congr fun a ha ↦ ?_
            rw [List.find?_filter]
            congr 2
            funext b
            by_cases hb : b.1 = a.1 <;> simp [hb, hne a ha]
          have hleft : without ((k, d) :: r) c = without r (c.filter (·.1 ≠ k)) := by
            have hkc : k ∈ c.map Prod.fst :=
              hek ▸ List.mem_map_of_mem (List.mem_of_find?_eq_some hfind)
            rw [without, List.filter_cons_of_neg (by simpa using hkc)]
            refine List.filter_congr fun a ha ↦ ?_
            have := hne a ha
            simp only [List.mem_map, List.mem_filter, decide_eq_decide]
            grind
          have hright : without c ((k, d) :: r) = without (c.filter (·.1 ≠ k)) r := by
            rw [without, without, List.filter_filter]
            refine List.filter_congr fun a _ ↦ ?_
            rw [List.map_cons, ← Bool.decide_and, decide_eq_decide, List.mem_cons, not_or, and_comm]
          have hcons : matched ((k, d) :: r) c = (d, e.2) :: matched r c := by
            rw [matched, List.filterMap_cons, hfind]
            rfl
          simp only [ih hr, hmatched, hleft, hright, hcons, List.mapM_cons, bind_assoc, pure_bind]
      | none =>
          have hkc : ∀ b ∈ c, b.1 ≠ k := fun b hb h ↦
            absurd (decide_eq_true h) (List.find?_eq_none.mp hfind b hb)
          have hleft : without ((k, d) :: r) c = (k, d) :: without r c := by
            refine List.filter_cons_of_pos ?_
            rw [decide_eq_true_eq, List.mem_map, not_exists]
            exact fun b hb ↦ hkc b hb.1 hb.2
          have hright : without c ((k, d) :: r) = without c r := by
            refine List.filter_congr fun b hb ↦ ?_
            simp [hkc b hb]
          have hcons : matched ((k, d) :: r) c = matched r c := by
            rw [matched, List.filterMap_cons, hfind]
            rfl
          simp only [ih hr, hleft, hright, hcons, bind_assoc, pure_bind, List.cons_append,
            List.map_cons]

/-! ## The two sides -/

/-- No side holds two dumps under one key, where keys are looked at. -/
def KeysDistinct (r c : List NamedDump) : Prop :=
  SingleFiles r c ∨ ((r.map fun e ↦ key e.2).Nodup ∧ (c.map fun e ↦ key e.2).Nodup)

/-- The dumps that are compared with each other, reference first. -/
def pairing (r c : List NamedDump) : List (NamedDump × NamedDump) :=
  if SingleFiles r c then r.zip c else matched (byKey r) (byKey c)

/-- The files without a counterpart. -/
def leftover (r c : List NamedDump) : List String :=
  if SingleFiles r c then []
  else (without (byKey r) (byKey c) ++ without (byKey c) (byKey r)).map (·.2.1)

theorem mapM_comparePair {ps : List (NamedDump × NamedDump)} {reports : List PairReport} :
    ps.mapM (fun p ↦ comparePair p.1 p.2) = .ok reports ↔
      (∀ p ∈ ps, Comparable p.1.2 p.2.2) ∧ reports = ps.map fun p ↦ pairReport p.1 p.2 := by
  rw [mapM_eq_ok, ← forall₂_eq_map]
  simp only [comparePair_eq_ok]
  exact List.forall₂_and_left ps reports

theorem pairSides_of_not_single {r c : List NamedDump} (h : ¬SingleFiles r c) :
    pairSides r c = (index r "reference" >>= fun ri ↦ index c "candidate" >>= fun ci ↦
      pairUp ri ci) := by
  unfold pairSides
  split
  · exact absurd ⟨rfl, rfl⟩ h
  · rfl

theorem nodup_map_fst_byKey {side : List NamedDump} :
    ((byKey side).map Prod.fst).Nodup ↔ (side.map fun e ↦ key e.2).Nodup := by
  rw [← map_fst_keyed]
  exact ((perm_sortByKey Prod.fst (keyed side)).map _).nodup_iff

theorem mem_byKey {side : List NamedDump} {k : PairKey} {d : NamedDump} :
    (k, d) ∈ byKey side ↔ d ∈ side ∧ key d.2 = k :=
  mem_sortByKey.trans mem_keyed

/-- The two sides are paired exactly when no key repeats and every two dumps that
meet can be compared. -/
theorem pairSides_eq_ok {r c : List NamedDump} {reports : List PairReport}
    {unpaired : List String} :
    pairSides r c = .ok (reports, unpaired) ↔
      KeysDistinct r c ∧ (∀ p ∈ pairing r c, Comparable p.1.2 p.2.2) ∧
        reports = (pairing r c).map (fun p ↦ pairReport p.1 p.2) ∧ unpaired = leftover r c := by
  by_cases h : SingleFiles r c
  · obtain ⟨⟨d, rfl⟩, ⟨e, rfl⟩⟩ := And.imp List.length_eq_one_iff.mp List.length_eq_one_iff.mp h
    rw [pairing, if_pos h, leftover, if_pos h,
      and_iff_right (show KeysDistinct [d] [e] from .inl h)]
    change (comparePair d e >>= fun p ↦ .ok ([p], [])) = .ok (reports, unpaired) ↔ _
    simp only [bind_eq_ok, comparePair_eq_ok, Except.ok.injEq, Prod.mk.injEq]
    simp [eq_comm]
  · rw [pairing, if_neg h, leftover, if_neg h, pairSides_of_not_single h, KeysDistinct,
      or_iff_right h]
    simp only [bind_eq_ok, index_eq_ok]
    constructor
    · rintro ⟨_, ⟨hr, rfl⟩, _, ⟨hc, rfl⟩, hpair⟩
      rw [pairUp_eq (nodup_map_fst_byKey.mpr hr)] at hpair
      obtain ⟨ps, hps, hpair⟩ := bind_eq_ok.mp hpair
      obtain ⟨hcomp, rfl⟩ := mapM_comparePair.mp hps
      obtain ⟨rfl, rfl⟩ := Prod.mk.inj (Except.ok.inj hpair)
      exact ⟨⟨hr, hc⟩, hcomp, rfl, rfl⟩
    · rintro ⟨⟨hr, hc⟩, hcomp, rfl, rfl⟩
      refine ⟨_, ⟨hr, rfl⟩, _, ⟨hc, rfl⟩, ?_⟩
      rw [pairUp_eq (nodup_map_fst_byKey.mpr hr)]
      exact bind_eq_ok.mpr ⟨_, mapM_comparePair.mpr ⟨hcomp, rfl⟩, rfl⟩

theorem mem_matched {r c : DumpIndex} (hc : (c.map Prod.fst).Nodup) {d e : NamedDump} :
    (d, e) ∈ matched r c ↔ ∃ k, (k, d) ∈ r ∧ (k, e) ∈ c := by
  have hfind : ∀ k b, c.find? (·.1 = k) = some b ↔ b ∈ c ∧ b.1 = k := by
    intro k b
    constructor
    · exact fun h ↦ ⟨List.mem_of_find?_eq_some h, by simpa using List.find?_some h⟩
    · rintro ⟨hb, rfl⟩
      obtain ⟨a, ha⟩ : ∃ a, c.find? (·.1 = b.1) = some a := by
        rw [← Option.isSome_iff_exists, List.find?_isSome]
        exact ⟨b, hb, decide_eq_true rfl⟩
      have hak : a.1 = b.1 := by simpa using List.find?_some ha
      rw [ha, List.inj_on_of_nodup_map hc (List.mem_of_find?_eq_some ha) hb hak]
  simp only [matched, List.mem_filterMap, Option.map_eq_some_iff, hfind, Prod.mk.injEq]
  constructor
  · rintro ⟨⟨k, _⟩, ha, ⟨_, _⟩, ⟨hb, rfl⟩, rfl, rfl⟩
    exact ⟨_, ha, hb⟩
  · rintro ⟨k, hd, he⟩
    exact ⟨(k, d), hd, (k, e), ⟨he, rfl⟩, rfl, rfl⟩

/-- The loops compare exactly the paired dumps. -/
theorem mem_pairing {r c : List NamedDump} (h : KeysDistinct r c) {d e : NamedDump} :
    (d, e) ∈ pairing r c ↔ Paired r c d e := by
  by_cases hs : SingleFiles r c
  · obtain ⟨⟨d', rfl⟩, ⟨e', rfl⟩⟩ :=
      And.imp List.length_eq_one_iff.mp List.length_eq_one_iff.mp hs
    rw [pairing, if_pos hs]
    simp only [List.zip_cons_cons, List.zip_nil_right, List.mem_singleton, Prod.mk.injEq]
    constructor
    · rintro ⟨rfl, rfl⟩
      exact ⟨List.mem_singleton_self _, List.mem_singleton_self _, .inl hs⟩
    · exact fun hp ↦ ⟨List.mem_singleton.mp hp.left, List.mem_singleton.mp hp.right⟩
  · obtain ⟨hr, hc⟩ := h.resolve_left hs
    rw [pairing, if_neg hs, mem_matched (nodup_map_fst_byKey.mpr hc)]
    simp only [mem_byKey]
    constructor
    · rintro ⟨k, ⟨hd, hk⟩, he, hk'⟩
      exact ⟨hd, he, .inr (hk.trans hk'.symm)⟩
    · exact fun hp ↦ ⟨_, ⟨hp.left, rfl⟩, hp.right, (hp.matching.resolve_left hs).symm⟩

theorem without_eq_nil {r c : List NamedDump} :
    without (byKey r) (byKey c) = [] ↔ ∀ d ∈ r, ∃ e ∈ c, key d.2 = key e.2 := by
  have hkey : ∀ k, k ∈ (byKey c).map Prod.fst ↔ ∃ e ∈ c, k = key e.2 := by
    intro k
    rw [byKey, ((perm_sortByKey Prod.fst (keyed c)).map _).mem_iff, map_fst_keyed, List.mem_map]
    exact ⟨fun ⟨e, he, h⟩ ↦ ⟨e, he, h.symm⟩, fun ⟨e, he, h⟩ ↦ ⟨e, he, h.symm⟩⟩
  rw [without, List.filter_eq_nil_iff]
  simp only [decide_eq_true_eq, hkey, not_not]
  constructor
  · exact fun h d hd ↦ h (key d.2, d) (mem_byKey.mpr ⟨hd, rfl⟩)
  · rintro h ⟨k, d⟩ hkd
    obtain ⟨hd, rfl⟩ := mem_byKey.mp hkd
    exact h d hd

/-- No file is left over exactly when the pairing is a bijection. -/
theorem leftover_eq_nil {r c : List NamedDump} (h : KeysDistinct r c) :
    leftover r c = [] ↔ InBijection r c := by
  by_cases hs : SingleFiles r c
  · obtain ⟨⟨d, rfl⟩, ⟨e, rfl⟩⟩ := And.imp List.length_eq_one_iff.mp List.length_eq_one_iff.mp hs
    rw [leftover, if_pos hs, iff_true_left rfl]
    constructor
    · intro d' hd
      exact ⟨e, ⟨hd, List.mem_singleton_self e, .inl hs⟩,
        fun e' he ↦ List.mem_singleton.mp he.right⟩
    · intro e' he
      exact ⟨d, ⟨List.mem_singleton_self d, he, .inl hs⟩,
        fun d' hd ↦ List.mem_singleton.mp hd.left⟩
  · obtain ⟨hr, hc⟩ := h.resolve_left hs
    have hunique : ∀ side : List NamedDump, (side.map fun e ↦ key e.2).Nodup →
        ∀ a ∈ side, ∀ b ∈ side, key a.2 = key b.2 → a = b :=
      fun side hn a ha b hb ↦ List.inj_on_of_nodup_map hn ha hb
    rw [leftover, if_neg hs, List.map_eq_nil_iff, List.append_eq_nil_iff, without_eq_nil,
      without_eq_nil]
    refine and_congr (forall₂_congr fun d hd ↦ ?_) (forall₂_congr fun e he ↦ ?_)
    · constructor
      · rintro ⟨e, he, hk⟩
        refine ⟨e, ⟨hd, he, .inr hk⟩, fun e' he' ↦ hunique c hc e' he'.right e he ?_⟩
        exact (he'.matching.resolve_left hs).symm.trans hk
      · rintro ⟨e, he, -⟩
        exact ⟨e, he.right, he.matching.resolve_left hs⟩
    · constructor
      · rintro ⟨d, hd, hk⟩
        refine ⟨d, ⟨hd, he, .inr hk.symm⟩, fun d' hd' ↦ hunique r hr d' hd'.left d hd ?_⟩
        exact (hd'.matching.resolve_left hs).trans hk
      · rintro ⟨d, hd, -⟩
        exact ⟨d, hd.left, (hd.matching.resolve_left hs).symm⟩

/-! ## The report -/

/-- The report on a reference and a candidate side that can be compared. -/
def reportOf (r c : List NamedDump) (engine : String) : Report :=
  let pairs := (pairing r c).map fun p ↦ pairReport p.1 p.2
  { referenceEngine := engine
    pairs
    unpaired := leftover r c
    oneSidedTotal := (pairs.map fun p ↦ p.oneSided.length).sum
    failedAttemptsTotal :=
      (pairs.map fun p ↦ p.reference.failedAttempts + p.candidate.failedAttempts).sum }

/-- The two sides can be compared: no key repeats, something meets, and what
meets can be compared. -/
structure SidesComparable (first second : List NamedDump) : Prop where
  keysDistinct : KeysDistinct first second
  comparable : ∀ d e, Paired first second d e → Comparable d.2 e.2
  meets : ∃ d e, Paired first second d e

theorem KeysDistinct.symm {r c : List NamedDump} (h : KeysDistinct r c) : KeysDistinct c r :=
  h.imp SingleFiles.symm And.symm

theorem SidesComparable.symm {first second : List NamedDump}
    (h : SidesComparable first second) : SidesComparable second first where
  keysDistinct := h.keysDistinct.symm
  comparable d e hp := (h.comparable e d hp.symm).symm
  meets := by
    obtain ⟨d, e, hp⟩ := h.meets
    exact ⟨e, d, hp.symm⟩

theorem compare_eq_ok {first second : List NamedDump} {engine : String} {report : Report} :
    compare first second engine = .ok report ↔ ∃ r c, roles first second engine = .ok (r, c) ∧
      first ≠ [] ∧ second ≠ [] ∧ SidesComparable r c ∧ report = reportOf r c engine := by
  rw [compare]
  split_ifs with hempty
  · simp only [Bool.or_eq_true, List.isEmpty_iff] at hempty
    grind
  · simp only [Bool.or_eq_true, List.isEmpty_iff, not_or] at hempty
    simp only [bind_eq_ok, Prod.exists]
    refine exists₂_congr fun r c ↦ and_congr_right fun _ ↦ ?_
    rw [and_iff_right hempty.1, and_iff_right hempty.2]
    constructor
    · rintro ⟨pairs, unpaired, hsides, h⟩
      obtain ⟨hkeys, hcomp, rfl, rfl⟩ := pairSides_eq_ok.mp hsides
      split_ifs at h with hnone
      obtain ⟨⟨d, e⟩, hp⟩ := List.exists_mem_of_ne_nil (pairing r c) fun h0 ↦ hnone (by simp [h0])
      refine ⟨⟨hkeys, fun d e hde ↦ hcomp _ ((mem_pairing hkeys).mpr hde), ?_⟩,
        (Except.ok.inj h).symm⟩
      exact ⟨d, e, (mem_pairing hkeys).mp hp⟩
    · rintro ⟨⟨hkeys, hcomp, d, e, hp⟩, rfl⟩
      refine ⟨_, _, pairSides_eq_ok.mpr ⟨hkeys, fun p hp ↦ ?_, rfl, rfl⟩, ?_⟩
      · exact hcomp p.1 p.2 ((mem_pairing hkeys).mp hp)
      · rw [if_neg]
        · rfl
        · have hmem := (mem_pairing hkeys).mpr hp
          rw [List.isEmpty_iff, List.map_eq_nil_iff]
          exact List.ne_nil_of_mem hmem

/-- The verdict of a report. -/
theorem passed_reportOf {r c : List NamedDump} {engine : String} (h : KeysDistinct r c) :
    (reportOf r c engine).passed = true ↔ InBijection r c ∧
      ∀ d e, Paired r c d e → (d.2.Clean ∧ e.2.Clean) ∧ d.2.attempted = e.2.attempted := by
  have hpairs : ((reportOf r c engine).oneSidedTotal = 0 ∧
      (reportOf r c engine).failedAttemptsTotal = 0) ↔
        ∀ d e, Paired r c d e → (d.2.Clean ∧ e.2.Clean) ∧ d.2.attempted = e.2.attempted := by
    have hsum : ∀ f : PairReport → ℕ,
        ((((pairing r c).map fun p ↦ pairReport p.1 p.2).map f).sum = 0 ↔
          ∀ d e, Paired r c d e → f (pairReport d e) = 0) := by
      intro f
      rw [List.sum_eq_zero_iff]
      constructor
      · intro hall d e hp
        refine hall _ (List.mem_map_of_mem (List.mem_map.mpr ⟨(d, e), ?_, rfl⟩))
        exact (mem_pairing h).mpr hp
      · rintro hall x hx
        obtain ⟨_, hp, rfl⟩ := List.mem_map.mp hx
        obtain ⟨⟨d, e⟩, hde, rfl⟩ := List.mem_map.mp hp
        exact hall d e ((mem_pairing h).mp hde)
    simp only [reportOf, hsum, ← pairReport_passes]
    exact ⟨fun ⟨ho, hf⟩ d e hp ↦ ⟨ho d e hp, hf d e hp⟩,
      fun hp ↦ ⟨fun d e h ↦ (hp d e h).1, fun d e h ↦ (hp d e h).2⟩⟩
  rw [← leftover_eq_nil h, ← hpairs, Report.passed, Report.passedAllowingUnpaired]
  simp only [Bool.false_or, Bool.and_eq_true, decide_eq_true_eq, List.isEmpty_iff]
  rw [and_comm]
  rfl

end VectorDbBenchmark.Results
