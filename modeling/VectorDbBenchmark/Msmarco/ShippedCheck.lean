import Mathlib.Data.List.Infix
import VectorDbBenchmark.F64
import VectorDbBenchmark.Kit.Fallible

/-!
# The check against the shipped ranking

`verify_head_against_shipped` of `src/msmarco.rs`: the brute-forced ranking of a query and the
shipped hits are compared rank by rank, and a differing id is excused when the two cosines at its
rank are close.  The rounding of a difference to an `f32` and the formatting are parameters.
-/

namespace VectorDbBenchmark.Msmarco

open Kit

/-- The arithmetic and the formatting of `f32`, whose values are values of an `f64`. -/
structure ShippedEnv where
  /-- The `f32` that an exact difference is rounded to. -/
  round : ℚ → F64
  /-- `{:.6}`. -/
  fixed6 : F64 → String
  /-- `Debug` of a string. -/
  debug : String → String

/-- A shipped hit inside the prefix; its offset is our id. -/
structure ShippedHit where
  offset : ℤ
  passageId : String
  cosine : F64

structure HeadCheck where
  /-- How many leading ranks were comparable. -/
  compared : ℕ
  maxScoreDelta : F64
  /-- Ranks with differing ids and close cosines. -/
  tieSwaps : ℕ
deriving DecidableEq

section Code

variable (env : ShippedEnv)

/-- `(a - b).abs()`. -/
def absDiff : F64 → F64 → F64
  | .fin a, .fin b => env.round |a - b|
  | .nan, _ | _, .nan => .nan
  | .posInf, .posInf | .negInf, .negInf => .nan
  | _, _ => .posInf

def wrongRanking (i : ℕ) (ourId : ℤ) (ourScore : F64) (hit : ShippedHit)
    (delta tol : F64) : String :=
  s!"rank {i}: brute force put id {ourId} (cosine {env.fixed6 ourScore}) where the shipped global " ++
    s!"top-1k has id {hit.offset} (cosine {env.fixed6 hit.cosine}); the gap of " ++
    s!"{env.fixed6 delta} exceeds the {env.fixed6 tol} tolerance, so this is a wrong ranking, not a tie"

def otherVector (i : ℕ) (ourId : ℤ) (ourScore : F64) (hit : ShippedHit)
    (delta tol : F64) : String :=
  s!"rank {i}: id {ourId} scores {env.fixed6 ourScore} here but {env.fixed6 hit.cosine} in the " ++
    s!"shipped top-1k (delta {env.fixed6 delta} > {env.fixed6 tol}) — the vector at that offset is " ++
    "not the one HF scored"

def misaligned (hit : ShippedHit) (docid : String) : String :=
  s!"offset {hit.offset} carries payload docid {env.debug docid} but the shipped top-1k calls it " ++
    s!"{env.debug hit.passageId} — the npy rows and the json.gz lines are misaligned, so every " ++
    "passage holds another passage's metadata"

/-- The ids at one rank, after the number of swaps so far. -/
def checkIds (tol : F64) (tieSwaps i : ℕ) (ours : F64 × ℤ) (hit : ShippedHit) : Except String ℕ :=
  let delta := absDiff env ours.1 hit.cosine
  if ours.2 ≠ hit.offset then
    if delta.le tol then .ok (tieSwaps + 1)
    else .error (wrongRanking env i ours.2 ours.1 hit delta tol)
  else if tol.lt delta then .error (otherVector env i ours.2 ours.1 hit delta tol)
  else .ok tieSwaps

/-- One rank, after the largest delta and the number of swaps so far. -/
def checkRank (docidAt : ℤ → Option String) (tol : F64) (acc : F64 × ℕ) :
    ((F64 × ℤ) × ShippedHit) × ℕ → Except String (F64 × ℕ)
  | ((ours, hit), i) => do
    let delta := absDiff env ours.1 hit.cosine
    let tieSwaps ← checkIds env tol acc.2 i ours hit
    let maxScoreDelta := if acc.1.lt delta then delta else acc.1
    match docidAt hit.offset with
    | some docid =>
      if docid ≠ hit.passageId then .error (misaligned env hit docid)
      else .ok (maxScoreDelta, tieSwaps)
    | none => .ok (maxScoreDelta, tieSwaps)

def verifyHeadAgainstShipped (ranked : List (F64 × ℤ)) (hits : List ShippedHit)
    (docidAt : ℤ → Option String) (tol : F64) : Except String HeadCheck := do
  let (maxScoreDelta, tieSwaps) ←
    (ranked.zip hits).zipIdx.foldlM (checkRank env docidAt tol) (.fin 0, 0)
  .ok ⟨min ranked.length hits.length, maxScoreDelta, tieSwaps⟩

end Code

/-! ## What is accepted -/

section Accepted

variable {env : ShippedEnv} {scored ranked : List (F64 × ℤ)} {hits : List ShippedHit}
  {docidAt : ℤ → Option String} {tol : F64} {check : HeadCheck}

variable (env) in
/-- The check has nothing against a score and a cosine. -/
def Within (tol score cosine : F64) : Prop := tol.lt (absDiff env score cosine) = false

theorem within_of_checkRank {acc acc' : F64 × ℕ} {ours : F64 × ℤ} {hit : ShippedHit} {i : ℕ}
    (h : checkRank env docidAt tol acc ((ours, hit), i) = .ok acc') :
    Within env tol ours.1 hit.cosine := by
  rw [checkRank] at h
  obtain ⟨tieSwaps, hswaps, -⟩ := bind_eq_ok.mp h
  rw [checkIds] at hswaps
  split_ifs at hswaps with hid hle hlt
  · exact F64.lt_eq_false_of_le hle
  · exact Bool.not_eq_true _ |>.mp hlt

theorem compared_eq (h : verifyHeadAgainstShipped env ranked hits docidAt tol = .ok check) :
    check.compared = min ranked.length hits.length := by
  obtain ⟨acc, -, h⟩ := bind_eq_ok.mp h
  cases h
  rfl

/-- Whatever the ids are, the cosines agree at every rank. -/
theorem within_of_verify (h : verifyHeadAgainstShipped env ranked hits docidAt tol = .ok check)
    {i : ℕ} (hi : i < ranked.length) (hi' : i < hits.length) :
    Within env tol ranked[i].1 hits[i].cosine := by
  obtain ⟨acc, hloop, -⟩ := bind_eq_ok.mp h
  have hmem : ((ranked[i], hits[i]), i) ∈ (ranked.zip hits).zipIdx := by
    rw [List.mem_zipIdx_iff_getElem?]
    exact List.getElem?_zip_eq_some.mpr
      ⟨List.getElem?_eq_getElem hi, List.getElem?_eq_getElem hi'⟩
  obtain ⟨b, c, hround⟩ := exists_round_of_foldlM hloop _ hmem
  exact within_of_checkRank hround

variable {edge : ℚ}

/-- What has a distance within the tolerance to a number is a number that is not far off. -/
theorem Within.exists_fin {t c : ℚ} {s : F64} (h : Within env (.fin t) s (.fin c))
    (hedge : ∀ x, F64.lt (.fin t) (env.round x) = false → x ≤ edge) (hs : s ≠ .nan) :
    ∃ q, s = .fin q ∧ |q - c| ≤ edge := by
  cases s with
  | nan => exact absurd rfl hs
  | negInf => cases h
  | posInf => cases h
  | fin q => exact ⟨q, rfl, hedge _ h⟩

/-- A passage that scores more than the last compared rank is among the compared ones. -/
theorem mem_take_of_last_lt (hsorted : scored.Pairwise fun a b ↦ b.1.le a.1)
    (hranked : ranked <+: scored) {m : ℕ} (hm : m < ranked.length) {c : F64 × ℤ}
    (hc : c ∈ scored) (hlt : ¬c.1.le ranked[m].1) : c ∈ ranked.take (m + 1) := by
  obtain ⟨rest, rfl⟩ := hranked
  obtain ⟨i, hi, rfl⟩ := List.getElem_of_mem hc
  rcases Nat.lt_or_ge m i with hmi | him
  · have hle := List.pairwise_iff_getElem.mp hsorted m i (hmi.trans hi) hi hmi
    rw [List.getElem_append_left hm] at hle
    exact absurd hle hlt
  · have hi' : i < ranked.length := him.trans_lt hm
    rw [List.getElem_append_left hi', List.mem_take_iff_getElem]
    exact ⟨i, lt_min (Nat.lt_succ_of_le him) hi', rfl⟩

/-- No hit is displaced that the brute force scores like the shipped ranking does: when the
ranking holds the best of all scored passages and its cosine is more than twice the tolerance
above the last one compared, its id is among those compared. -/
theorem verifyHeadAgainstShipped_keeps {tol : ℚ}
    (hsorted : scored.Pairwise fun a b ↦ b.1.le a.1) (hranked : ranked <+: scored)
    (hedge : ∀ x, F64.lt (.fin tol) (env.round x) = false → x ≤ edge)
    (h : verifyHeadAgainstShipped env ranked hits docidAt (.fin tol) = .ok check)
    {hit last : ShippedHit} (hlast : (hits.take check.compared).getLast? = some last)
    {s : F64} (hscored : (s, hit.offset) ∈ scored) {c lastCosine : ℚ}
    (hc : hit.cosine = .fin c) (hlastCosine : last.cosine = .fin lastCosine)
    (hwithin : Within env (.fin tol) s hit.cosine) (hfar : lastCosine + 2 * edge < c) :
    hit.offset ∈ (ranked.take check.compared).map Prod.snd := by
  rw [compared_eq h] at hlast ⊢
  obtain ⟨m, hm⟩ : ∃ m, min ranked.length hits.length = m + 1 := by
    refine Nat.exists_eq_succ_of_ne_zero fun hzero ↦ ?_
    rw [hzero] at hlast
    cases hlast
  have hm₁ : m < ranked.length := by omega
  have hm₂ : m < hits.length := by omega
  rw [hm, List.take_add_one, List.getElem?_eq_getElem hm₂, Option.toList_some,
    List.getLast?_concat, Option.some_inj] at hlast
  rw [hm]
  refine List.mem_map.mpr ⟨_, mem_take_of_last_lt hsorted hranked hm₁ hscored fun hle ↦ ?_, rfl⟩
  -- its score is not below its cosine, nor the last score above the last cosine
  have hlastWithin := within_of_verify h hm₁ hm₂
  rw [hlast, hlastCosine] at hlastWithin
  rw [hc] at hwithin
  have hs : s ≠ .nan := by
    rintro rfl
    cases hle
  have hlastScore : ranked[m].1 ≠ .nan := by
    intro hnan
    rw [hnan] at hle
    cases s <;> cases hle
  obtain ⟨q, rfl, hq⟩ := hwithin.exists_fin hedge hs
  obtain ⟨q', hq', hnear⟩ := hlastWithin.exists_fin hedge hlastScore
  rw [hq'] at hle
  have hqq : q ≤ q' := of_decide_eq_true hle
  have hbelow := (abs_le.mp hq).1
  have habove := (abs_le.mp hnear).2
  linarith

/-- Exact differences, as they are where the difference of two `f32` is one. -/
def exactShippedEnv : ShippedEnv := ⟨.fin, fun _ ↦ "", id⟩

/-- The best of three passages against a shipped list whose hits are swapped. -/
theorem verifyHeadAgainstShipped_keeps_swapped :
    verifyHeadAgainstShipped exactShippedEnv
      [(.fin (3 / 4), 7), (.fin (3 / 4), 50), (.fin (1 / 2), 42)]
      [⟨50, "a", .fin (3 / 4)⟩, ⟨7, "c", .fin (3 / 4)⟩, ⟨42, "d", .fin (1 / 2)⟩]
      (fun _ ↦ none) (.fin (1 / 1024)) = .ok ⟨3, .fin 0, 2⟩ ∧
    (50 : ℤ) ∈ [(F64.fin (3 / 4), (7 : ℤ)), (.fin (3 / 4), 50), (.fin (1 / 2), 42)].map
      Prod.snd := by
  have hok : verifyHeadAgainstShipped exactShippedEnv
      [(.fin (3 / 4), 7), (.fin (3 / 4), 50), (.fin (1 / 2), 42)]
      [⟨50, "a", .fin (3 / 4)⟩, ⟨7, "c", .fin (3 / 4)⟩, ⟨42, "d", .fin (1 / 2)⟩]
      (fun _ ↦ none) (.fin (1 / 1024)) = .ok ⟨3, .fin 0, 2⟩ := by with_unfolding_all decide
  refine ⟨hok, ?_⟩
  have hedge : ∀ x, F64.lt (.fin (1 / 1024)) (exactShippedEnv.round x) = false → x ≤ 1 / 1024 :=
    fun x hx ↦ not_lt.mp (of_decide_eq_false hx)
  let hit : ShippedHit := ⟨50, "a", .fin (3 / 4)⟩
  have hcosine : hit.cosine = .fin (3 / 4) := rfl
  have hwithin : Within exactShippedEnv (.fin (1 / 1024)) (.fin (3 / 4)) hit.cosine := by
    rw [Within]
    with_unfolding_all decide
  exact verifyHeadAgainstShipped_keeps (by with_unfolding_all decide) List.prefix_rfl hedge hok rfl
    (List.mem_cons_of_mem _ List.mem_cons_self) hcosine rfl hwithin (by norm_num)

/-- A hit far above the last one compared is replaced by another passage with its cosine, which
is taken for a tie. -/
theorem verifyHeadAgainstShipped_displaced :
    [(F64.fin (3 / 4), (1 : ℤ)), (.fin (1 / 2), 2)].Pairwise (fun a b ↦ b.1.le a.1 = true) ∧
    [ShippedHit.mk 3 "c" (.fin (3 / 4)), ⟨2, "b", .fin (1 / 2)⟩].Pairwise
      (fun a b ↦ b.cosine.le a.cosine = true) ∧
    verifyHeadAgainstShipped exactShippedEnv [(.fin (3 / 4), 1), (.fin (1 / 2), 2)]
      [⟨3, "c", .fin (3 / 4)⟩, ⟨2, "b", .fin (1 / 2)⟩] (fun _ ↦ none) (.fin (1 / 1024)) =
        .ok ⟨2, .fin 0, 1⟩ ∧
    (1 / 2 + 2 * (1 / 1024) : ℚ) < 3 / 4 ∧
    (3 : ℤ) ∉ ([(F64.fin (3 / 4), (1 : ℤ)), (.fin (1 / 2), 2)].take 2).map Prod.snd := by
  refine ⟨?_, ?_, ?_, by norm_num, by decide⟩ <;> with_unfolding_all decide

end Accepted

end VectorDbBenchmark.Msmarco
