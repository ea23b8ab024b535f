import Mathlib.Order.Bounds.Basic
import VectorDbBenchmark.HybridRrf.Fusion
import VectorDbBenchmark.Kit.Distinct

/-!
# The score of a fused page

`score_query` of `src/hybrid_rrf.rs`, over exact rationals and with the tolerance for ties as
a parameter.  A reference is ranked, with scores that do not increase; where several ids have
the score at the cut, the reference could have been ranked otherwise.
-/

namespace VectorDbBenchmark.HybridRrf

open Kit

structure QueryScore where
  recallAtTop : ℚ
  strictRecall : ℚ
  precision : ℚ
deriving DecidableEq

/-- The score of an id in the reference; the last entry of an id counts. -/
def refScore (fused : List (Int64 × ℚ)) (id : Int64) : Option ℚ :=
  (fused.reverse.find? fun e ↦ e.1 = id).map Prod.snd

def scorePage (returned : List Int64) (top : ℕ) : List Int64 := (distinct returned).take top

/-- The score at the cut. -/
def cutoff (fused : List (Int64 × ℚ)) (expected : ℕ) : ℚ :=
  (fused.map Prod.snd).getD (expected - 1) 0

def scoreQuery (tolerance : ℚ) (returned : List Int64) (fused : List (Int64 × ℚ)) (top : ℕ) :
    QueryScore :=
  let expected := min top fused.length
  let page := scorePage returned top
  if expected = 0 then
    let perfect := if page.isEmpty then 1 else 0
    ⟨perfect, perfect, perfect⟩
  else
    let cut := cutoff fused expected
    let floor := cut - |cut| * tolerance
    let ceil := cut + |cut| * tolerance
    -- The tie group only has the slots that the ids above it leave.
    let aboveInReference := fused.countP fun e ↦ ceil < e.2
    let tieSlots := expected - aboveInReference
    let aboveHits := page.countP fun id ↦ (refScore fused id).any fun s ↦ ceil < s
    let tieHits := page.countP fun id ↦ (refScore fused id).any fun s ↦ !(ceil < s) && floor ≤ s
    let hits := aboveHits + min tieHits tieSlots
    let strict := (fused.take expected).map Prod.fst
    let strictHits := page.countP fun id ↦ id ∈ strict
    ⟨hits / expected, strictHits / expected,
      if page.isEmpty then 0 else hits / page.length⟩

/-- A ranking by scores, of distinct ids. -/
structure Ranked (fused : List (Int64 × ℚ)) : Prop where
  nodup : (fused.map Prod.fst).Nodup
  sorted : fused.Pairwise fun e f ↦ f.2 ≤ e.2

section Ranked

variable {fused : List (Int64 × ℚ)}

theorem refScore_eq_some_iff (h : (fused.map Prod.fst).Nodup) {id : Int64} {s : ℚ} :
    refScore fused id = some s ↔ (id, s) ∈ fused := by
  rw [refScore, Option.map_eq_some_iff]
  constructor
  · rintro ⟨e, he, rfl⟩
    have hfound := List.find?_some he
    have hid := of_decide_eq_true hfound
    have hmem := List.mem_reverse.mp (List.mem_of_find?_eq_some he)
    rwa [← hid]
  · intro hmem
    have hsome : (fused.reverse.find? fun e ↦ e.1 = id).isSome := by
      rw [List.find?_isSome]
      exact ⟨(id, s), List.mem_reverse.mpr hmem, decide_eq_true rfl⟩
    obtain ⟨e, he⟩ := Option.isSome_iff_exists.mp hsome
    have hfound := List.find?_some he
    have hid := of_decide_eq_true hfound
    have hmem' := List.mem_reverse.mp (List.mem_of_find?_eq_some he)
    have heq : e = (id, s) := List.inj_on_of_nodup_map h hmem' hmem hid
    exact ⟨e, he, congrArg Prod.snd heq⟩

/-- Ids of a page by their scores are entries by their ids. -/
theorem countP_refScore (h : (fused.map Prod.fst).Nodup) {page : List Int64} (hpage : page.Nodup)
    (p : ℚ → Bool) : page.countP (fun id ↦ (refScore fused id).any p) =
      fused.countP fun e ↦ p e.2 && decide (e.1 ∈ page) := by
  have hkeys : ((fused.filter fun e ↦ p e.2).map Prod.fst).Nodup :=
    h.sublist (List.filter_sublist.map Prod.fst)
  have hany : ∀ id, (refScore fused id).any p =
      decide (id ∈ (fused.filter fun e ↦ p e.2).map Prod.fst) := by
    intro id
    rw [Bool.eq_iff_iff, Option.any_eq_true, decide_eq_true_eq, List.mem_map]
    constructor
    · rintro ⟨s, hs, hp⟩
      exact ⟨(id, s), List.mem_filter.mpr ⟨(refScore_eq_some_iff h).mp hs, hp⟩, rfl⟩
    · rintro ⟨⟨id', s⟩, he, rfl⟩
      obtain ⟨hmem, hp⟩ := List.mem_filter.mp he
      exact ⟨s, (refScore_eq_some_iff h).mpr hmem, hp⟩
  simp only [hany]
  rw [countP_mem_comm hpage hkeys, List.countP_map, List.countP_filter]
  exact List.countP_congr fun e _ ↦ by rw [Bool.and_comm]; rfl

/-- All reorderings of a ranking that keep the scores from increasing. -/
def Reordering (fused fused' : List (Int64 × ℚ)) : Prop :=
  fused'.Perm fused ∧ fused'.Pairwise fun e f ↦ f.2 ≤ e.2

theorem Reordering.nodup {fused' : List (Int64 × ℚ)} (h : Reordering fused fused')
    (hnodup : (fused.map Prod.fst).Nodup) : (fused'.map Prod.fst).Nodup :=
  (h.1.map Prod.fst).nodup_iff.mpr hnodup

/-- A reordering has the same scores at all positions. -/
theorem Reordering.scores {fused' : List (Int64 × ℚ)} (h : Reordering fused fused')
    (hsorted : fused.Pairwise fun e f ↦ f.2 ≤ e.2) : fused'.map Prod.snd = fused.map Prod.snd := by
  have hanti : ∀ a b : ℚ, a ∈ fused'.map Prod.snd → b ∈ fused.map Prod.snd → b ≤ a → a ≤ b →
      a = b := fun a b _ _ hab hba ↦ le_antisymm hba hab
  apply List.Perm.eq_of_pairwise hanti
  · exact List.pairwise_map.mpr h.2
  · exact List.pairwise_map.mpr hsorted
  · exact h.1.map Prod.snd

end Ranked

/-! ## At the cut -/

section Cut

variable {l : List (Int64 × ℚ)} {m : ℕ}

/-- The entry at the cut is the last of the first ones. -/
theorem exists_cut (hm : m ≠ 0) (hlen : m ≤ l.length) :
    ∃ before x, l.take m = before ++ [x] ∧ cutoff l m = x.2 := by
  obtain ⟨n, rfl⟩ := Nat.exists_eq_succ_of_ne_zero hm
  refine ⟨l.take n, l[n], List.take_succ_eq_append_getElem hlen, ?_⟩
  rw [cutoff, Nat.succ_eq_add_one, Nat.add_sub_cancel, List.getD_eq_getElem?_getD,
    List.getElem?_map, List.getElem?_eq_getElem hlen]
  rfl

theorem cutoff_le_of_mem_take (hsorted : l.Pairwise fun e f ↦ f.2 ≤ e.2) (hm : m ≠ 0)
    (hlen : m ≤ l.length) {e : Int64 × ℚ} (he : e ∈ l.take m) : cutoff l m ≤ e.2 := by
  obtain ⟨before, x, htake, hcut⟩ := exists_cut hm hlen
  have hpairs := hsorted.sublist (List.take_sublist m l)
  rw [htake, List.pairwise_append] at hpairs
  rw [htake, List.mem_append, List.mem_singleton] at he
  rw [hcut]
  rcases he with he | rfl
  · exact hpairs.2.2 e he x (List.mem_singleton_self x)
  · exact le_rfl

theorem le_cutoff_of_mem_drop (hsorted : l.Pairwise fun e f ↦ f.2 ≤ e.2) (hm : m ≠ 0)
    (hlen : m ≤ l.length) {e : Int64 × ℚ} (he : e ∈ l.drop m) : e.2 ≤ cutoff l m := by
  obtain ⟨before, x, htake, hcut⟩ := exists_cut hm hlen
  rw [← List.take_append_drop m l, List.pairwise_append] at hsorted
  rw [hcut]
  refine hsorted.2.2 x ?_ e he
  rw [htake]
  exact List.mem_append_right _ (List.mem_singleton_self x)

/-- Everything above the cut is among the first entries. -/
theorem countP_take_above (hsorted : l.Pairwise fun e f ↦ f.2 ≤ e.2) (hm : m ≠ 0)
    (hlen : m ≤ l.length) (p : Int64 × ℚ → Bool) :
    (l.take m).countP (fun e ↦ decide (cutoff l m < e.2) && p e) =
      l.countP fun e ↦ decide (cutoff l m < e.2) && p e := by
  have hdrop : (l.drop m).countP (fun e ↦ decide (cutoff l m < e.2) && p e) = 0 := by
    rw [List.countP_eq_zero]
    intro e he habove
    rw [Bool.and_eq_true, decide_eq_true_eq] at habove
    exact absurd (le_cutoff_of_mem_drop hsorted hm hlen he) (not_le.mpr habove.1)
  have hsplit : ∀ q : Int64 × ℚ → Bool, l.countP q = (l.take m).countP q + (l.drop m).countP q := by
    intro q
    rw [← List.countP_append, List.take_append_drop]
  rw [hsplit, hdrop, Nat.add_zero]

/-- How many of the first entries have a property: those above the cut, and those at it. -/
theorem countP_take (hsorted : l.Pairwise fun e f ↦ f.2 ≤ e.2) (hm : m ≠ 0)
    (hlen : m ≤ l.length) (p : Int64 × ℚ → Bool) :
    (l.take m).countP p = l.countP (fun e ↦ decide (cutoff l m < e.2) && p e) +
      (l.take m).countP fun e ↦ decide (e.2 = cutoff l m) && p e := by
  rw [← countP_take_above hsorted hm hlen, List.countP_eq_countP_filter_add (l.take m) p
    fun e ↦ decide (cutoff l m < e.2), List.countP_filter, List.countP_filter]
  congr 1
  · exact List.countP_congr fun e _ ↦ by rw [Bool.and_comm]
  · refine List.countP_congr fun e he ↦ ?_
    have hle := cutoff_le_of_mem_take hsorted hm hlen he
    rw [Bool.and_comm, Bool.and_eq_true, Bool.and_eq_true, Bool.not_eq_true',
      decide_eq_false_iff_not,
      decide_eq_true_eq, not_lt]
    exact and_congr_left fun _ ↦ ⟨fun h ↦ le_antisymm h hle, fun h ↦ h.le⟩

/-- At most as many of the first entries are at the cut as those above leave slots. -/
theorem countP_take_at (hsorted : l.Pairwise fun e f ↦ f.2 ≤ e.2) (hm : m ≠ 0)
    (hlen : m ≤ l.length) :
    (l.take m).countP (fun e ↦ decide (e.2 = cutoff l m)) =
      m - l.countP fun e ↦ decide (cutoff l m < e.2) := by
  have hall := countP_take hsorted hm hlen fun _ ↦ true
  simp only [Bool.and_true] at hall
  rw [List.countP_true, List.length_take_of_le hlen] at hall
  exact (Nat.sub_eq_of_eq_add' hall).symm

/-- The first entries that have a property, when the entries at the cut that have it come
before those that do not. -/
theorem le_countP_take {above : List (Int64 × ℚ)} (tied rest : List (Int64 × ℚ))
    {p : Int64 × ℚ → Bool} (hp : ∀ e ∈ tied, p e = true) (habove : above.length ≤ m) :
    above.countP p + min tied.length (m - above.length) ≤
      ((above ++ (tied ++ rest)).take m).countP p := by
  have htied : (tied.take (m - above.length)).countP p = min tied.length (m - above.length) := by
    rw [List.countP_eq_length.mpr fun e he ↦ hp e (List.mem_of_mem_take he), List.length_take]
    exact Nat.min_comm _ _
  rw [List.take_append, List.take_of_length_le habove, List.countP_append, ← htied,
    List.take_append, List.countP_append]
  exact Nat.add_le_add_left (Nat.le_add_right _ _) _

end Cut

/-! ## The best reordering -/

section Best

variable {fused : List (Int64 × ℚ)} {m : ℕ} (page : List Int64)

/-- The entries that the page has and that are above the cut, or at it. -/
def aboveOf (fused : List (Int64 × ℚ)) (m : ℕ) : ℕ :=
  fused.countP fun e ↦ decide (cutoff fused m < e.2) && decide (e.1 ∈ page)

def tiedOf (fused : List (Int64 × ℚ)) (m : ℕ) : ℕ :=
  fused.countP fun e ↦ decide (e.2 = cutoff fused m) && decide (e.1 ∈ page)

/-- The slots of the tie group. -/
def slotsOf (fused : List (Int64 × ℚ)) (m : ℕ) : ℕ :=
  m - fused.countP fun e ↦ decide (cutoff fused m < e.2)

theorem Reordering.cutoff_eq {fused' : List (Int64 × ℚ)} (h : Reordering fused fused')
    (hsorted : fused.Pairwise fun e f ↦ f.2 ≤ e.2) : cutoff fused' m = cutoff fused m := by
  rw [cutoff, cutoff, h.scores hsorted]

/-- No reordering has more of the page among its first entries. -/
theorem countP_take_le {fused' : List (Int64 × ℚ)} (h : Reordering fused fused')
    (hsorted : fused.Pairwise fun e f ↦ f.2 ≤ e.2) (hm : m ≠ 0) (hlen : m ≤ fused.length) :
    (fused'.take m).countP (fun e ↦ e.1 ∈ page) ≤
      aboveOf page fused m + min (tiedOf page fused m) (slotsOf fused m) := by
  have hlen' : m ≤ fused'.length := h.1.length_eq ▸ hlen
  have hat := countP_take_at h.2 hm hlen'
  rw [h.cutoff_eq hsorted, h.1.countP_eq] at hat
  rw [countP_take h.2 hm hlen', h.cutoff_eq hsorted, h.1.countP_eq]
  refine Nat.add_le_add_left (le_min ?_ ?_) _
  · rw [tiedOf, ← h.1.countP_eq]
    exact (List.take_sublist m fused').countP_le
  · rw [slotsOf, ← hat]
    refine List.countP_mono_left fun e _ he ↦ ?_
    rw [Bool.and_eq_true] at he
    exact he.1

/-- The entries of the tie group that the page has before those it has not. -/
def bestOrder (fused : List (Int64 × ℚ)) (m : ℕ) : List (Int64 × ℚ) :=
  fused.filter (fun e ↦ cutoff fused m < e.2) ++
    (fused.filter (fun e ↦ decide (e.2 = cutoff fused m) && decide (e.1 ∈ page)) ++
      (fused.filter (fun e ↦ decide (e.2 = cutoff fused m) && !decide (e.1 ∈ page)) ++
        fused.filter fun e ↦ e.2 < cutoff fused m))

theorem perm_bestOrder (fused : List (Int64 × ℚ)) (m : ℕ) :
    (bestOrder page fused m).Perm fused := by
  have habove := List.filter_append_perm (fun e : Int64 × ℚ ↦ decide (cutoff fused m < e.2)) fused
  have htied := List.filter_append_perm (fun e : Int64 × ℚ ↦ decide (e.2 = cutoff fused m))
    (fused.filter fun e ↦ !decide (cutoff fused m < e.2))
  have hpage := List.filter_append_perm (fun e : Int64 × ℚ ↦ decide (e.1 ∈ page))
    (fused.filter fun e ↦ decide (e.2 = cutoff fused m))
  refine List.Perm.trans (List.Perm.append_left _ ?_) habove
  refine List.Perm.trans ?_ htied
  rw [← List.append_assoc]
  refine List.Perm.append ?_ (List.Perm.of_eq ?_)
  · rw [List.filter_filter]
    have heq : fused.filter (fun e ↦ decide (e.2 = cutoff fused m) &&
        !decide (cutoff fused m < e.2)) = fused.filter fun e ↦ decide (e.2 = cutoff fused m) := by
      refine List.filter_congr fun e _ ↦ ?_
      rw [Bool.eq_iff_iff, Bool.and_eq_true, Bool.not_eq_true', decide_eq_true_eq,
        decide_eq_false_iff_not, not_lt]
      exact and_iff_left_of_imp fun h ↦ h.le
    rw [heq]
    refine List.Perm.trans (List.Perm.of_eq ?_) hpage
    rw [List.filter_filter, List.filter_filter]
    simp only [Bool.and_comm]
  · rw [List.filter_filter]
    refine List.filter_congr fun e _ ↦ ?_
    rw [Bool.eq_iff_iff, Bool.and_eq_true, Bool.not_eq_true', Bool.not_eq_true',
      decide_eq_true_eq, decide_eq_false_iff_not, decide_eq_false_iff_not, not_lt]
    exact ⟨fun h ↦ ⟨h.ne, h.le⟩, fun h ↦ lt_of_le_of_ne h.2 h.1⟩

theorem reordering_bestOrder (hsorted : fused.Pairwise fun e f ↦ f.2 ≤ e.2) (m : ℕ) :
    Reordering fused (bestOrder page fused m) := by
  refine ⟨perm_bestOrder page fused m, ?_⟩
  have hfilter : ∀ q : Int64 × ℚ → Bool, (fused.filter q).Pairwise fun e f ↦ f.2 ≤ e.2 :=
    fun q ↦ hsorted.sublist List.filter_sublist
  have habove : ∀ {e}, e ∈ fused.filter (fun e ↦ cutoff fused m < e.2) → cutoff fused m < e.2 :=
    fun he ↦ of_decide_eq_true (List.mem_filter.mp he).2
  have htied : ∀ {q : Int64 × ℚ → Bool} {e},
      e ∈ fused.filter (fun e ↦ decide (e.2 = cutoff fused m) && q e) → e.2 = cutoff fused m := by
    intro q e he
    have htrue := (List.mem_filter.mp he).2
    rw [Bool.and_eq_true, decide_eq_true_eq] at htrue
    exact htrue.1
  have hbelow : ∀ {e}, e ∈ fused.filter (fun e ↦ e.2 < cutoff fused m) → e.2 < cutoff fused m :=
    fun he ↦ of_decide_eq_true (List.mem_filter.mp he).2
  rw [bestOrder, List.pairwise_append, List.pairwise_append, List.pairwise_append]
  refine ⟨hfilter _, ⟨hfilter _, ⟨hfilter _, hfilter _, ?_⟩, ?_⟩, ?_⟩
  · intro e he f hf
    rw [htied he]
    exact (hbelow hf).le
  · intro e he f hf
    rw [htied he]
    rcases List.mem_append.mp hf with hf | hf
    · exact (htied hf).le
    · exact (hbelow hf).le
  · intro e he f hf
    refine le_trans ?_ (habove he).le
    rcases List.mem_append.mp hf with hf | hf
    · exact (htied hf).le
    · rcases List.mem_append.mp hf with hf | hf
      · exact (htied hf).le
      · exact (hbelow hf).le

/-- The best reordering has as many of the page among its first entries as the tie group
allows. -/
theorem countP_take_bestOrder (hsorted : fused.Pairwise fun e f ↦ f.2 ≤ e.2) (hm : m ≠ 0)
    (hlen : m ≤ fused.length) :
    ((bestOrder page fused m).take m).countP (fun e ↦ e.1 ∈ page) =
      aboveOf page fused m + min (tiedOf page fused m) (slotsOf fused m) := by
  refine le_antisymm (countP_take_le page (reordering_bestOrder page hsorted m) hsorted hm hlen) ?_
  have hle : (fused.filter fun e ↦ cutoff fused m < e.2).length ≤ m := by
    rw [← List.countP_eq_length_filter]
    have hall := countP_take hsorted hm hlen fun _ ↦ true
    simp only [Bool.and_true, List.countP_true] at hall
    rw [List.length_take_of_le hlen] at hall
    exact Nat.le.intro hall.symm
  have htied : ∀ e ∈ fused.filter (fun e ↦ decide (e.2 = cutoff fused m) && decide (e.1 ∈ page)),
      decide (e.1 ∈ page) = true := by
    intro e he
    have htrue := (List.mem_filter.mp he).2
    rw [Bool.and_eq_true] at htrue
    exact htrue.2
  have hbest := le_countP_take _
    (fused.filter (fun e ↦ decide (e.2 = cutoff fused m) && !decide (e.1 ∈ page)) ++
      fused.filter fun e ↦ e.2 < cutoff fused m) htied hle
  rw [List.countP_filter, ← List.countP_eq_length_filter, ← List.countP_eq_length_filter] at hbest
  refine le_trans (le_of_eq ?_) hbest
  rw [aboveOf, tiedOf, slotsOf]
  simp only [Bool.and_comm]

end Best

/-! ## The tie-aware recall -/

/-- The share of the first `k` ids of a ranking that the page has; of an empty ranking only an
empty page has all. -/
def strictRecallAt (page : List Int64) (ranking : List (Int64 × ℚ)) (k : ℕ) : ℚ :=
  let m := min k ranking.length
  if m = 0 then if page = [] then 1 else 0
  else (page.toFinset ∩ ((ranking.take m).map Prod.fst).toFinset).card / m

section Score

variable {fused fused' : List (Int64 × ℚ)} (returned : List Int64) (k : ℕ)

theorem nodup_scorePage : (scorePage returned k).Nodup :=
  (nodup_distinct returned).sublist (List.take_sublist k _)

theorem strictRecallAt_of_nodup {page : List Int64} (h : (fused.map Prod.fst).Nodup)
    (hne : min k fused.length ≠ 0) :
    strictRecallAt page fused k =
      ((fused.take (min k fused.length)).countP fun e ↦ e.1 ∈ page) /
        (min k fused.length : ℕ) := by
  have hfirst : ((fused.take (min k fused.length)).map Prod.fst).Nodup :=
    h.sublist ((List.take_sublist _ _).map _)
  rw [strictRecallAt]
  simp only [if_neg hne]
  rw [card_toFinset_inter hfirst, List.countP_map]
  rfl

/-- The score of a page when nothing is expected. -/
theorem scoreQuery_of_expected_zero (h : min k fused.length = 0) :
    scoreQuery 0 returned fused k =
      ⟨if (scorePage returned k).isEmpty then 1 else 0,
        if (scorePage returned k).isEmpty then 1 else 0,
        if (scorePage returned k).isEmpty then 1 else 0⟩ := by
  unfold scoreQuery
  simp only [if_pos h]

/-- The score of a page, by the entries of the reference. -/
theorem scoreQuery_of_ranked (h : Ranked fused) (hne : min k fused.length ≠ 0) :
    scoreQuery 0 returned fused k =
      let m := min k fused.length
      let page := scorePage returned k
      let hits := aboveOf page fused m + min (tiedOf page fused m) (slotsOf fused m)
      ⟨hits / m, (fused.take m).countP (fun e ↦ e.1 ∈ page) / m,
        if page.isEmpty then 0 else hits / page.length⟩ := by
  have hpage := nodup_scorePage returned k
  have habove : (scorePage returned k).countP (fun id ↦ (refScore fused id).any fun s ↦
      cutoff fused (min k fused.length) < s) =
        aboveOf (scorePage returned k) fused (min k fused.length) := countP_refScore h.nodup hpage _
  have htied : (scorePage returned k).countP (fun id ↦ (refScore fused id).any fun s ↦
      !decide (cutoff fused (min k fused.length) < s) &&
        decide (cutoff fused (min k fused.length) ≤ s)) =
        tiedOf (scorePage returned k) fused (min k fused.length) := by
    rw [countP_refScore h.nodup hpage, tiedOf]
    refine List.countP_congr fun e _ ↦ ?_
    rw [Bool.and_eq_true, Bool.and_eq_true, Bool.and_eq_true, Bool.not_eq_true',
      decide_eq_false_iff_not, decide_eq_true_eq, decide_eq_true_eq, decide_eq_true_eq, not_lt]
    exact and_congr_left fun _ ↦ ⟨fun hs ↦ le_antisymm hs.1 hs.2, fun hs ↦ ⟨hs.le, hs.ge⟩⟩
  have hstrict : (scorePage returned k).countP (fun id ↦
      id ∈ (fused.take (min k fused.length)).map Prod.fst) =
        (fused.take (min k fused.length)).countP fun e ↦ e.1 ∈ scorePage returned k := by
    rw [countP_mem_comm hpage (h.nodup.sublist ((List.take_sublist _ _).map _)), List.countP_map]
    rfl
  unfold scoreQuery
  simp only [if_neg hne, mul_zero, sub_zero, add_zero, habove, htied, hstrict]
  rw [slotsOf, Nat.cast_add]

/-- At most the whole page is hit. -/
theorem hits_le_page (h : (fused.map Prod.fst).Nodup) (m : ℕ) :
    aboveOf (scorePage returned k) fused m + min (tiedOf (scorePage returned k) fused m)
      (slotsOf fused m) ≤ (scorePage returned k).length := by
  have hsplit := List.countP_eq_countP_filter_add fused
    (fun e : Int64 × ℚ ↦ decide (e.1 ∈ scorePage returned k)) fun e ↦ decide (cutoff fused m < e.2)
  have hswap := countP_mem_comm (nodup_scorePage returned k) h
  rw [List.countP_map] at hswap
  refine le_trans ?_ (hswap.symm.le.trans List.countP_le_length)
  refine le_trans (Nat.add_le_add (le_of_eq ?_) ((min_le_left _ _).trans ?_)) hsplit.symm.le
  · rw [List.countP_filter, aboveOf]
    simp only [Bool.and_comm]
  · rw [List.countP_filter, tiedOf]
    refine List.countP_mono_left fun e _ he ↦ ?_
    rw [Bool.and_eq_true, decide_eq_true_eq] at he
    rw [Bool.and_eq_true, Bool.not_eq_true', decide_eq_false_iff_not, not_lt]
    exact ⟨he.2, he.1.le⟩

theorem mem_Icc_natDiv {m n : ℕ} (h : m ≤ n) : (m : ℚ) / n ∈ Set.Icc (0 : ℚ) 1 :=
  ⟨div_nonneg (Nat.cast_nonneg m) (Nat.cast_nonneg n),
    div_le_one_of_le₀ (Nat.cast_le.mpr h) (Nat.cast_nonneg n)⟩

theorem Reordering.ranked (hreorder : Reordering fused fused') (h : Ranked fused) :
    Ranked fused' := ⟨hreorder.nodup h.nodup, hreorder.2⟩

theorem Reordering.self (h : Ranked fused) : Reordering fused fused :=
  ⟨List.Perm.refl fused, h.sorted⟩

/-- The strict recall is what its name says. -/
theorem strictRecall_eq (h : Ranked fused) :
    (scoreQuery 0 returned fused k).strictRecall =
      strictRecallAt (scorePage returned k) fused k := by
  by_cases hzero : min k fused.length = 0
  · rw [scoreQuery_of_expected_zero returned k hzero, strictRecallAt]
    simp only [if_pos hzero, List.isEmpty_iff]
  · rw [scoreQuery_of_ranked returned k h hzero, strictRecallAt_of_nodup k h.nodup hzero]

theorem recallAtTop_isGreatest (h : Ranked fused) :
    IsGreatest {r | ∃ fused', Reordering fused fused' ∧
        r = strictRecallAt (scorePage returned k) fused' k}
      (scoreQuery 0 returned fused k).recallAtTop := by
  by_cases hzero : min k fused.length = 0
  · have hsame : ∀ fused', Reordering fused fused' →
        strictRecallAt (scorePage returned k) fused' k =
          (scoreQuery 0 returned fused k).recallAtTop := by
      intro fused' hreorder
      rw [scoreQuery_of_expected_zero returned k hzero, strictRecallAt, hreorder.1.length_eq]
      simp only [if_pos hzero, List.isEmpty_iff]
    refine ⟨⟨fused, .self h, (hsame fused (.self h)).symm⟩, ?_⟩
    rintro r ⟨fused', hreorder, rfl⟩
    exact (hsame fused' hreorder).le
  · have hlen : min k fused.length ≤ fused.length := min_le_right _ _
    have hstrict : ∀ fused', Reordering fused fused' →
        strictRecallAt (scorePage returned k) fused' k =
          ((fused'.take (min k fused.length)).countP fun e ↦ e.1 ∈ scorePage returned k) /
            (min k fused.length : ℕ) := by
      intro fused' hreorder
      rw [strictRecallAt_of_nodup k (hreorder.nodup h.nodup) (hreorder.1.length_eq ▸ hzero),
        hreorder.1.length_eq]
    rw [scoreQuery_of_ranked returned k h hzero]
    constructor
    · have hbest := reordering_bestOrder (scorePage returned k) h.sorted (min k fused.length)
      refine ⟨_, hbest, ?_⟩
      rw [hstrict _ hbest, countP_take_bestOrder _ h.sorted hzero hlen]
    · rintro r ⟨fused', hreorder, rfl⟩
      rw [hstrict _ hreorder]
      apply div_le_div_of_nonneg_right _ (Nat.cast_nonneg _)
      exact Nat.cast_le.mpr (countP_take_le _ hreorder h.sorted hzero hlen)

theorem recallAtTop_mem_Icc (h : Ranked fused) :
    (scoreQuery 0 returned fused k).recallAtTop ∈ Set.Icc 0 1 := by
  by_cases hzero : min k fused.length = 0
  · rw [scoreQuery_of_expected_zero returned k hzero]
    split_ifs <;> simp
  · have hbest := countP_take_bestOrder (scorePage returned k) h.sorted hzero (min_le_right _ _)
    rw [scoreQuery_of_ranked returned k h hzero]
    apply mem_Icc_natDiv
    rw [← hbest]
    exact List.countP_le_length.trans (List.length_take_le _ _)

theorem precision_mem_Icc (h : Ranked fused) :
    (scoreQuery 0 returned fused k).precision ∈ Set.Icc 0 1 := by
  by_cases hzero : min k fused.length = 0
  · rw [scoreQuery_of_expected_zero returned k hzero]
    split_ifs <;> simp
  · rw [scoreQuery_of_ranked returned k h hzero]
    dsimp only
    split_ifs
    · exact ⟨le_rfl, zero_le_one⟩
    · exact mem_Icc_natDiv (hits_le_page returned k h.nodup _)

/-- The tie-aware recall is the best strict recall of all reorderings of the reference that keep
its scores from increasing. -/
theorem scoreQuery_tieAware (h : Ranked fused) :
    IsGreatest {r | ∃ fused', Reordering fused fused' ∧
        r = strictRecallAt (scorePage returned k) fused' k}
      (scoreQuery 0 returned fused k).recallAtTop ∧
    (scoreQuery 0 returned fused k).strictRecall =
      strictRecallAt (scorePage returned k) fused k ∧
    (scoreQuery 0 returned fused k).strictRecall ≤ (scoreQuery 0 returned fused k).recallAtTop ∧
    (scoreQuery 0 returned fused k).recallAtTop ∈ Set.Icc 0 1 ∧
    (scoreQuery 0 returned fused k).precision ∈ Set.Icc 0 1 := by
  have hgreatest := recallAtTop_isGreatest returned k h
  have hstrict := strictRecall_eq returned k h
  exact ⟨hgreatest, hstrict, hgreatest.2 ⟨fused, .self h, hstrict⟩,
    recallAtTop_mem_Icc returned k h, precision_mem_Icc returned k h⟩

end Score

/-- Two ids at the cut, of which the page has the one that is ranked lower: one of two ids is
found in the given order, and both in the best one. -/
theorem scoreQuery_tieAware_swapped :
    (IsGreatest {r | ∃ fused', Reordering [(1, 1 / 2), (2, 1 / 3), (3, 1 / 3)] fused' ∧
        r = strictRecallAt (scorePage [3, 3, 1] 2) fused' 2}
      (scoreQuery 0 [3, 3, 1] [(1, 1 / 2), (2, 1 / 3), (3, 1 / 3)] 2).recallAtTop ∧
    (scoreQuery 0 [3, 3, 1] [(1, 1 / 2), (2, 1 / 3), (3, 1 / 3)] 2).strictRecall =
      strictRecallAt (scorePage [3, 3, 1] 2) [(1, 1 / 2), (2, 1 / 3), (3, 1 / 3)] 2 ∧
    (scoreQuery 0 [3, 3, 1] [(1, 1 / 2), (2, 1 / 3), (3, 1 / 3)] 2).strictRecall ≤
      (scoreQuery 0 [3, 3, 1] [(1, 1 / 2), (2, 1 / 3), (3, 1 / 3)] 2).recallAtTop ∧
    (scoreQuery 0 [3, 3, 1] [(1, 1 / 2), (2, 1 / 3), (3, 1 / 3)] 2).recallAtTop ∈ Set.Icc 0 1 ∧
    (scoreQuery 0 [3, 3, 1] [(1, 1 / 2), (2, 1 / 3), (3, 1 / 3)] 2).precision ∈ Set.Icc 0 1) ∧
    scoreQuery 0 [3, 3, 1] [(1, 1 / 2), (2, 1 / 3), (3, 1 / 3)] 2 = ⟨1, 1 / 2, 1⟩ :=
  ⟨scoreQuery_tieAware [3, 3, 1] 2 ⟨by decide, by norm_num⟩, by with_unfolding_all decide⟩

end VectorDbBenchmark.HybridRrf
