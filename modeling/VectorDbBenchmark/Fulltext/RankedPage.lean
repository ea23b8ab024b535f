import Mathlib.Data.Finset.Card
import VectorDbBenchmark.F64
import VectorDbBenchmark.Kit.TieGroups
import VectorDbBenchmark.Kit.Walk

/-!
# Ranked pages with and without a count

`same_ranked_page` of `src/fulltext.rs`: two pages are the same when their scores are, rank by
rank, and their ids are within each group of equal scores, except for a last group that the page
cuts off.  Its loop goes from group to group.
-/

namespace VectorDbBenchmark.Fulltext

open Kit

/-- An id with its score. -/
abbrev Hit := String × F64

def redisWithoutcount : String := "WITHOUTCOUNT"

def scores (page : List Hit) : List F64 := page.map Prod.snd

/-- The ids as a set. -/
def idSet (page : List Hit) : Finset String := (page.map Prod.fst).toFinset

section Code

-- What `{:?}` prints of a page.
variable (debug : List Hit → String)

def pageDiffers (counted uncounted : List Hit) : String :=
  s!"the {redisWithoutcount} page {debug uncounted} differs from the counted page {debug counted}"

def pageHoldsOthers (counted uncounted : List Hit) : String :=
  s!"the {redisWithoutcount} page {debug uncounted} holds other documents than the counted page " ++
    s!"{debug counted}"

/-- One round of the loop, at the group that starts there. -/
def groupStep (counted uncounted : List Hit) (truncated : Bool) (start : ℕ) :
    ℕ ⊕ Except String Unit :=
  match counted[start]? with
  | none => .inr (.ok ())
  | some (_, score) =>
    let stop := start + ((counted.drop start).takeWhile fun h ↦ h.2.eq score).length
    let ids := fun page : List Hit ↦ idSet ((page.take stop).drop start)
    if !(truncated && stop = counted.length) ∧ ids counted ≠ ids uncounted then
      .inr (.error (pageHoldsOthers debug counted uncounted))
    else .inl stop

/-- The result, if it is there after that many rounds. -/
def sameRankedPage (counted uncounted : List Hit) (truncated : Bool) (rounds : ℕ) :
    Option (Except String Unit) :=
  if counted.length ≠ uncounted.length ∨ !(scores counted).isEqv (scores uncounted) F64.eq then
    some (.error (pageDiffers debug counted uncounted))
  else Walk.run (groupStep debug counted uncounted truncated) rounds 0

end Code

/-! ## Groups -/

/-- The ids with a score. -/
def idsAt (page : List Hit) (score : F64) : Finset String := idSet (page.filter (·.2 = score))

/-- Scores go down along the page. -/
abbrev Ranked (page : List Hit) : Prop := Descending (fun a b ↦ a.le b = true) Prod.snd page

/-- The pages have the same ids at each score, but for the last one where they are cut. -/
def Matching (truncated : Bool) (counted uncounted : List Hit) : Prop :=
  ∀ score, (truncated = true → counted.getLast?.map Prod.snd ≠ some score) →
    idsAt counted score = idsAt uncounted score

section Groups

variable {counted uncounted page : List Hit} {truncated : Bool} {start rounds : ℕ} {hit : Hit}

theorem le_antisymm_score (a b : F64) (h : a.le b = true) (h' : b.le a = true) : a = b :=
  F64.eq_of_le_of_le h h'

theorem idsAt_eq_empty {score : F64} (h : score ∉ scores page) : idsAt page score = ∅ := by
  rw [idsAt, List.filter_eq_nil_iff.mpr]
  · rfl
  · intro x hx heq
    exact h (List.mem_map.mpr ⟨x, hx, of_decide_eq_true heq⟩)

theorem Ranked.of_scores_eq (h : Ranked counted) (hscores : scores counted = scores uncounted) :
    Ranked uncounted := by
  have hmap : (scores counted).Pairwise fun a b ↦ b.le a = true := List.pairwise_map.mpr h
  rw [hscores] at hmap
  exact List.pairwise_map.mp hmap

/-- The length of the first group. -/
def groupLength (page : List Hit) (score : F64) : ℕ := (page.takeWhile (·.2 = score)).length

theorem groupLength_eq_of_scores_eq (h : scores counted = scores uncounted) (score : F64) :
    groupLength counted score = groupLength uncounted score := by
  have hlength : ∀ page : List Hit,
      groupLength page score = ((scores page).takeWhile (· = score)).length := by
    intro page
    rw [scores, List.takeWhile_map, List.length_map]
    rfl
  rw [hlength, hlength, h]

/-- With a score that is a number, the comparison is equality. -/
theorem takeWhile_eq_score {score : F64} (h : score ≠ .nan) (page : List Hit) :
    (page.takeWhile fun h ↦ h.2.eq score) = page.takeWhile (·.2 = score) := by
  congr 1
  funext x
  rw [Bool.eq_iff_iff, F64.eq_iff, decide_eq_true_eq]
  exact ⟨And.left, fun heq ↦ ⟨heq, heq ▸ h⟩⟩

variable (hranked : Ranked (hit :: page))

include hranked

theorem le_head (hnumber : hit.2 ≠ .nan) : ∀ x ∈ hit :: page, x.2.le hit.2 = true := by
  refine List.forall_mem_cons.mpr ⟨?_, (List.pairwise_cons.mp hranked).1⟩
  cases hscore : hit.2 with
  | nan => exact absurd hscore hnumber
  | negInf => rfl
  | posInf => rfl
  | fin q => exact decide_eq_true le_rfl

theorem idSet_take_groupLength (hnumber : hit.2 ≠ .nan) :
    idSet ((hit :: page).take (groupLength (hit :: page) hit.2)) = idsAt (hit :: page) hit.2 :=
  congrArg idSet (take_eq_filter_of_le le_antisymm_score hranked (le_head hranked hnumber))

theorem idsAt_drop_groupLength (hnumber : hit.2 ≠ .nan) (score : F64) :
    idsAt ((hit :: page).drop (groupLength (hit :: page) hit.2)) score =
      if score = hit.2 then ∅ else idsAt (hit :: page) score := by
  rw [idsAt, groupLength,
    filter_drop_eq le_antisymm_score hranked (le_head hranked hnumber), apply_ite idSet]
  rfl

theorem getLast?_of_drop_eq_nil (hnumber : hit.2 ≠ .nan)
    (h : (hit :: page).drop (groupLength (hit :: page) hit.2) = []) :
    (hit :: page).getLast?.map Prod.snd = some hit.2 := by
  have hgroup := take_eq_filter_of_le le_antisymm_score hranked (le_head hranked hnumber)
  have hall := List.take_append_drop (groupLength (hit :: page) hit.2) (hit :: page)
  rw [h, List.append_nil, groupLength, hgroup, List.filter_eq_self] at hall
  have hlast := List.getLast?_eq_some_getLast (List.cons_ne_nil hit page)
  rw [hlast, Option.map_some]
  exact congrArg some (of_decide_eq_true (hall _ (List.getLast_mem _)))

theorem getLast?_drop_ne_some (hnumber : hit.2 ≠ .nan) :
    ((hit :: page).drop (groupLength (hit :: page) hit.2)).getLast?.map Prod.snd ≠
      some hit.2 := by
  intro h
  obtain ⟨x, hx, hscore⟩ := Option.map_eq_some_iff.mp h
  have hgone := filter_drop_eq le_antisymm_score (c := hit.2) hranked (le_head hranked hnumber)
  rw [if_pos rfl, List.filter_eq_nil_iff] at hgone
  exact hgone x (List.mem_of_getLast? hx) (decide_eq_true hscore)

/-- Pages match when their first groups do, unless that is the one cut off, and what is behind
them does. -/
theorem matching_iff {hit' : Hit} {page' : List Hit}
    (hscores : scores (hit :: page) = scores (hit' :: page')) (hnumber : hit.2 ≠ .nan) :
    Matching truncated (hit :: page) (hit' :: page') ↔
      ((truncated = true → (hit :: page).drop (groupLength (hit :: page) hit.2) ≠ []) →
        idsAt (hit :: page) hit.2 = idsAt (hit' :: page') hit.2) ∧
      Matching truncated ((hit :: page).drop (groupLength (hit :: page) hit.2))
        ((hit' :: page').drop (groupLength (hit :: page) hit.2)) := by
  have hhead : hit.2 = hit'.2 := (List.cons.inj hscores).1
  have hranked' : Ranked (hit' :: page') := hranked.of_scores_eq hscores
  have hdrop := idsAt_drop_groupLength hranked hnumber
  have hdrop' := idsAt_drop_groupLength hranked' (hhead ▸ hnumber)
  have hlastNil := getLast?_of_drop_eq_nil hranked hnumber
  have hlastNe := getLast?_drop_ne_some hranked hnumber
  rw [← hhead, ← groupLength_eq_of_scores_eq hscores] at hdrop'
  have hlast : ∀ rest, (hit :: page).drop (groupLength (hit :: page) hit.2) = rest → rest ≠ [] →
      (hit :: page).getLast? = rest.getLast? := by
    intro rest hrest hne
    rw [← List.take_append_drop (groupLength (hit :: page) hit.2) (hit :: page), hrest,
      List.getLast?_append_of_ne_nil _ hne]
  generalize (hit :: page).drop (groupLength (hit :: page) hit.2) = rest at *
  constructor
  · intro h
    constructor
    · intro hrest
      refine h hit.2 fun htruncated ↦ ?_
      rw [hlast rest rfl (hrest htruncated)]
      exact hlastNe
    · intro score hscore
      rw [hdrop, hdrop']
      split_ifs with heq
      · rfl
      · refine h score fun htruncated ↦ ?_
        by_cases hrest : rest = []
        · rw [hlastNil hrest]
          exact fun hsome ↦ heq (Option.some.inj hsome).symm
        · rw [hlast rest rfl hrest]
          exact hscore htruncated
  · rintro ⟨hfirst, hmatching⟩ score hscore
    by_cases heq : score = hit.2
    · rw [heq] at hscore ⊢
      exact hfirst fun htruncated hrest ↦ hscore htruncated (hlastNil hrest)
    · have hbehind := hmatching score fun htruncated ↦ ?_
      · rwa [hdrop, hdrop', if_neg heq, if_neg heq] at hbehind
      · by_cases hrest : rest = []
        · rw [hrest]
          intro hnone
          cases hnone
        · rw [← hlast rest rfl hrest]
          exact hscore htruncated

end Groups

/-! ## The loop -/

section Loop

variable {debug : List Hit → String} {counted uncounted : List Hit} {truncated : Bool}
  {start rounds : ℕ}

theorem groupLength_pos (hit : Hit) (page : List Hit) :
    0 < groupLength (hit :: page) hit.2 := by
  rw [groupLength, List.takeWhile_cons, if_pos (decide_eq_true rfl)]
  exact Nat.succ_pos _

/-- A round at a group. -/
theorem groupStep_of_drop {hit : Hit} {page rest : List Hit}
    (hcounted : counted.drop start = hit :: page) (huncounted : uncounted.drop start = rest)
    (hnumber : hit.2 ≠ .nan) :
    groupStep debug counted uncounted truncated start =
      if (truncated = true → (hit :: page).drop (groupLength (hit :: page) hit.2) ≠ []) ∧
          idSet ((hit :: page).take (groupLength (hit :: page) hit.2)) ≠
            idSet (rest.take (groupLength (hit :: page) hit.2)) then
        .inr (.error (pageHoldsOthers debug counted uncounted))
      else .inl (start + groupLength (hit :: page) hit.2) := by
  have hhead : counted[start]? = some hit := by
    rw [← List.head?_drop, hcounted, List.head?_cons]
  have hlength : counted.length = start + (hit :: page).length := by
    have hle : start < counted.length := (List.getElem?_eq_some_iff.mp hhead).1
    have hlen := congrArg List.length hcounted
    rw [List.length_drop] at hlen
    omega
  have hgroup : groupLength (hit :: page) hit.2 ≤ (hit :: page).length :=
    (List.takeWhile_prefix _).length_le
  obtain ⟨id, score⟩ := hit
  rw [groupStep, hhead]
  dsimp only at hgroup ⊢
  rw [hcounted, takeWhile_eq_score hnumber, ← groupLength]
  refine if_congr (and_congr ?_ (not_congr ?_)) rfl rfl
  · rw [Ne, List.drop_eq_nil_iff, hlength]
    cases truncated with
    | false => simp
    | true =>
        simp only [Bool.true_and, Bool.not_eq_true', decide_eq_false_iff_not, forall_const]
        omega
  · rw [List.drop_take, List.drop_take, Nat.add_sub_cancel_left, hcounted, huncounted]

/-- A round at the first groups of ranked pages. -/
theorem groupStep_of_ranked {hit hit' : Hit} {page page' : List Hit}
    (hcounted : counted.drop start = hit :: page)
    (huncounted : uncounted.drop start = hit' :: page')
    (hranked : Ranked (hit :: page)) (hscores : scores (hit :: page) = scores (hit' :: page'))
    (hnumber : hit.2 ≠ .nan) :
    groupStep debug counted uncounted truncated start =
      if (truncated = true → (hit :: page).drop (groupLength (hit :: page) hit.2) ≠ []) ∧
          idsAt (hit :: page) hit.2 ≠ idsAt (hit' :: page') hit.2 then
        .inr (.error (pageHoldsOthers debug counted uncounted))
      else .inl (start + groupLength (hit :: page) hit.2) := by
  have hhead : hit.2 = hit'.2 := (List.cons.inj hscores).1
  have hids : idSet ((hit' :: page').take (groupLength (hit :: page) hit.2)) =
      idsAt (hit' :: page') hit.2 := by
    rw [groupLength_eq_of_scores_eq hscores, hhead]
    exact idSet_take_groupLength (hranked.of_scores_eq hscores) (hhead ▸ hnumber)
  rw [groupStep_of_drop hcounted huncounted hnumber, hids, idSet_take_groupLength hranked hnumber]

/-- Whatever is left of ranked pages is accepted when it matches. -/
theorem ends_groupStep_iff (hranked : Ranked (counted.drop start))
    (hscores : scores (counted.drop start) = scores (uncounted.drop start))
    (hnumbers : ∀ hit ∈ counted.drop start, hit.2 ≠ .nan) :
    Walk.Ends (groupStep debug counted uncounted truncated) start (.ok ()) ↔
      Matching truncated (counted.drop start) (uncounted.drop start) := by
  induction hn : (counted.drop start).length using Nat.strong_induction_on generalizing start with
  | _ n ih =>
      cases hcounted : counted.drop start with
      | nil =>
          have huncounted : uncounted.drop start = [] := by
            rw [hcounted] at hscores
            exact List.map_eq_nil_iff.mp hscores.symm
          have hresult : groupStep debug counted uncounted truncated start = .inr (.ok ()) := by
            rw [groupStep, List.getElem?_eq_none (List.drop_eq_nil_iff.mp hcounted)]
          rw [Walk.ends_of_result hresult, huncounted]
          exact iff_of_true rfl fun _ _ ↦ rfl
      | cons hit page =>
          rw [hcounted] at hranked hscores hnumbers hn
          cases huncounted : uncounted.drop start with
          | nil =>
              rw [huncounted] at hscores
              cases hscores
          | cons hit' page' =>
              rw [huncounted] at hscores
              have hnumber := hnumbers hit List.mem_cons_self
              have hstep : groupStep debug counted uncounted truncated start = _ :=
                groupStep_of_ranked hcounted huncounted hranked hscores hnumber
              rw [matching_iff hranked hscores hnumber]
              split_ifs at hstep with hfirst
              · rw [Walk.ends_of_result hstep]
                exact iff_of_false (fun h ↦ by cases h) fun h ↦ hfirst.2 (h.1 hfirst.1)
              · have hmove : ∀ p : List Hit,
                    p.drop (start + groupLength (hit :: page) hit.2) =
                      (p.drop start).drop (groupLength (hit :: page) hit.2) :=
                  fun p ↦ List.drop_drop.symm
                have hcounted' := hmove counted
                have huncounted' := hmove uncounted
                rw [hcounted] at hcounted'
                rw [huncounted] at huncounted'
                have hshorter :
                    (counted.drop (start + groupLength (hit :: page) hit.2)).length < n := by
                  have hpos := groupLength_pos hit page
                  rw [hcounted', List.length_drop, ← hn, List.length_cons]
                  omega
                rw [Walk.ends_of_next hstep, ih _ hshorter ?_ ?_ ?_ rfl, hcounted', huncounted']
                · refine (and_iff_right fun hlast ↦ ?_).symm
                  exact not_not.mp fun hne ↦ hfirst ⟨hlast, hne⟩
                · rw [hcounted']
                  exact hranked.drop _
                · rw [hcounted', huncounted', scores, scores, List.map_drop, List.map_drop]
                  exact congrArg _ hscores
                · rw [hcounted']
                  exact fun x hx ↦ hnumbers x (List.mem_of_mem_drop hx)

theorem ends_zero_iff (hranked : Ranked counted) (hscores : scores counted = scores uncounted)
    (hnumbers : ∀ hit ∈ counted, hit.2 ≠ .nan) :
    Walk.Ends (groupStep debug counted uncounted truncated) 0 (.ok ()) ↔
      Matching truncated counted uncounted :=
  @ends_groupStep_iff debug counted uncounted truncated 0 hranked hscores hnumbers

/-- Every group has a hit, so that the loop ends. -/
theorem exists_run_groupStep (hnumbers : ∀ hit ∈ counted, hit.2 ≠ .nan) :
    ∃ result, ∀ rounds, counted.length < rounds →
      Walk.run (groupStep debug counted uncounted truncated) rounds 0 = some result := by
  refine @Walk.exists_run _ _ (groupStep debug counted uncounted truncated) 0
    (fun _ ↦ True) (fun start ↦ counted.length - start) ?_ trivial
  intro start next _ hnext
  refine ⟨trivial, ?_⟩
  cases hcounted : counted.drop start with
  | nil =>
      rw [Walk.Next, groupStep, List.getElem?_eq_none (List.drop_eq_nil_iff.mp hcounted)] at hnext
      cases hnext
  | cons hit page =>
      have hlt : start < counted.length := by
        refine not_le.mp fun hle ↦ ?_
        rw [List.drop_eq_nil_iff.mpr hle] at hcounted
        cases hcounted
      have hnumber := hnumbers hit (List.mem_of_mem_drop (hcounted ▸ List.mem_cons_self))
      have hpos := groupLength_pos hit page
      rw [Walk.Next, groupStep_of_drop hcounted rfl hnumber] at hnext
      split_ifs at hnext
      cases hnext
      omega

/-! ## What is accepted -/

/-- The check before the loop. -/
theorem sameRankedPage_of_scores_eq (hscores : scores counted = scores uncounted)
    (hnumbers : ∀ hit ∈ counted, hit.2 ≠ .nan) :
    sameRankedPage debug counted uncounted truncated rounds =
      Walk.run (groupStep debug counted uncounted truncated) rounds 0 := by
  have hequal : (scores counted).isEqv (scores uncounted) F64.eq = true := by
    refine F64.isEqv_iff.mpr ⟨hscores, fun score hmem ↦ ?_⟩
    obtain ⟨hit, hhit, rfl⟩ := List.mem_map.mp hmem
    exact hnumbers hit hhit
  have hlength : counted.length = uncounted.length := by
    have hlen := congrArg List.length hscores
    rwa [scores, scores, List.length_map, List.length_map] at hlen
  rw [sameRankedPage, hequal, if_neg]
  simpa using hlength

/-- Ranked pages that match are accepted. -/
theorem sameRankedPage_of_matching (hranked : Ranked counted)
    (hscores : scores counted = scores uncounted) (hnumbers : ∀ hit ∈ counted, hit.2 ≠ .nan)
    (hmatching : Matching truncated counted uncounted) (hrounds : counted.length < rounds) :
    sameRankedPage debug counted uncounted truncated rounds = some (.ok ()) := by
  have hends : Walk.Ends (groupStep debug counted uncounted truncated) 0 (.ok ()) :=
    (ends_zero_iff hranked hscores hnumbers).mpr hmatching
  obtain ⟨result, hresult⟩ := @exists_run_groupStep debug counted uncounted truncated hnumbers
  have hrun := hresult rounds hrounds
  rw [sameRankedPage_of_scores_eq hscores hnumbers, hrun,
    Walk.Ends.unique ⟨rounds, hrun⟩ hends]

/-- Ranked pages that are accepted match. -/
theorem matching_of_sameRankedPage (hranked : Ranked counted)
    (h : sameRankedPage debug counted uncounted truncated rounds = some (.ok ())) :
    scores counted = scores uncounted ∧ Matching truncated counted uncounted := by
  by_cases hequal : (scores counted).isEqv (scores uncounted) F64.eq = true
  · obtain ⟨hscores, hnumbers⟩ := F64.isEqv_iff.mp hequal
    have hnumbers' : ∀ hit ∈ counted, hit.2 ≠ .nan :=
      fun hit hmem ↦ hnumbers hit.2 (List.mem_map_of_mem hmem)
    rw [sameRankedPage_of_scores_eq hscores hnumbers'] at h
    exact ⟨hscores, (ends_zero_iff hranked hscores hnumbers').mp ⟨rounds, h⟩⟩
  · rw [sameRankedPage, if_pos] at h
    · cases h
    · rw [Bool.not_eq_true] at hequal
      rw [hequal]
      exact .inr rfl

end Loop

section Exact

variable {docs xs ys : List Hit} {k : ℕ}

/-- A total order of scored documents by descending score; the scores are numbers. -/
structure RankingOf (docs xs : List Hit) : Prop where
  perm : xs.Perm docs
  ranked : Ranked xs
  numbers : ∀ hit ∈ xs, hit.2 ≠ .nan

theorem scores_take_eq (hx : RankingOf docs xs) (hy : RankingOf docs ys) :
    scores (xs.take k) = scores (ys.take k) := by
  have hperm : xs.Perm ys := hx.perm.trans hy.perm.symm
  rw [scores, scores, List.map_take, List.map_take]
  exact congrArg (List.take k)
    (Descending.map_eq_of_perm le_antisymm_score hx.ranked hy.ranked hperm)

/-- A top page has all ids at its scores, but for the last one. -/
theorem idsAt_take (hx : RankingOf docs xs) {score : F64} (hmem : score ∈ scores (xs.take k))
    (hlast : k < docs.length → (xs.take k).getLast?.map Prod.snd ≠ some score) :
    idsAt (xs.take k) score = idsAt docs score := by
  rw [← hx.perm.length_eq] at hlast
  rw [idsAt, filter_take_eq_filter le_antisymm_score hx.ranked hmem hlast, idsAt, idSet, idSet]
  exact List.toFinset_eq_of_perm _ _ ((hx.perm.filter _).map _)

/-- The top pages of two rankings match. -/
theorem matching_take (hx : RankingOf docs xs) (hy : RankingOf docs ys) :
    Matching (decide (k < docs.length)) (xs.take k) (ys.take k) := by
  have hscores : scores (xs.take k) = scores (ys.take k) := scores_take_eq hx hy
  intro score hlast
  rw [decide_eq_true_eq] at hlast
  by_cases hmem : score ∈ scores (xs.take k)
  · have hlast' : k < docs.length → (ys.take k).getLast?.map Prod.snd ≠ some score := by
      rwa [← List.getLast?_map, ← scores, ← hscores, scores, List.getLast?_map]
    rw [idsAt_take hx hmem hlast, idsAt_take hy (hscores ▸ hmem) hlast']
  · rw [idsAt_eq_empty hmem, idsAt_eq_empty (hscores ▸ hmem)]

/-- Two rankings of the same documents are accepted at every page size; and accepted pages have
the same scores, and the same ids above the last group of a page that is cut off. -/
theorem sameRankedPage_exact (debug : List Hit → String) :
    (∀ (docs xs ys : List Hit) (k : ℕ), RankingOf docs xs → RankingOf docs ys →
      ∀ rounds, (xs.take k).length < rounds →
        sameRankedPage debug (xs.take k) (ys.take k) (decide (k < docs.length)) rounds =
          some (.ok ())) ∧
    ∀ (counted uncounted : List Hit) (truncated : Bool) (rounds : ℕ), Ranked counted →
      Ranked uncounted →
      sameRankedPage debug counted uncounted truncated rounds = some (.ok ()) →
        scores counted = scores uncounted ∧ Matching truncated counted uncounted := by
  constructor
  · intro docs xs ys k hx hy rounds hrounds
    exact sameRankedPage_of_matching (hx.ranked.take k) (scores_take_eq hx hy)
      (fun hit hhit ↦ hx.numbers hit (List.mem_of_mem_take hhit)) (matching_take hx hy) hrounds
  · intro counted uncounted truncated rounds hcounted _ h
    exact matching_of_sameRankedPage hcounted h

/-- A page of two out of three documents that tie for its second rank. -/
theorem sameRankedPage_exact_tie :
    sameRankedPage (fun _ ↦ "") [("a", .fin 2), ("b", .fin 1)] [("a", .fin 2), ("c", .fin 1)] true
      3 = some (.ok ()) ∧
    idsAt [("a", .fin 2), ("b", .fin 1)] (.fin 2) =
      idsAt [("a", .fin 2), ("c", .fin 1)] (.fin 2) := by
  have hx : RankingOf [("a", .fin 2), ("b", .fin 1), ("c", .fin 1)]
      [("a", .fin 2), ("b", .fin 1), ("c", .fin 1)] :=
    ⟨List.Perm.refl _, by rw [Ranked, Descending]; decide, by decide⟩
  have hy : RankingOf [("a", .fin 2), ("b", .fin 1), ("c", .fin 1)]
      [("a", .fin 2), ("c", .fin 1), ("b", .fin 1)] :=
    ⟨(List.Perm.swap _ _ _).cons _, by rw [Ranked, Descending]; decide, by decide⟩
  have hok := (sameRankedPage_exact fun _ ↦ "").1 _ _ _ 2 hx hy 3 (by decide)
  refine ⟨hok, ?_⟩
  exact ((sameRankedPage_exact fun _ ↦ "").2 _ _ _ 3 (hx.ranked.take 2) (hy.ranked.take 2)
    hok).2 (.fin 2) (by decide)

end Exact

end VectorDbBenchmark.Fulltext
