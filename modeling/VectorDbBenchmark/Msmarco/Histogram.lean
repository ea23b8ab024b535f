import VectorDbBenchmark.Kit.Bisect
import VectorDbBenchmark.Msmarco.SampleCorpus

/-!
# The threshold for a sample size

`BucketHistogram` of `src/msmarco.rs`: how many passages hash to each bucket, and the threshold
that selects the number of passages closest to a target.  A count below a threshold is the number
of counted passages that the threshold keeps.
-/

namespace VectorDbBenchmark.Msmarco

open Kit

/-- A count of passages per bucket; a `u64` holds their number. -/
structure BucketHistogram where
  counts : List ℕ
  length_counts : counts.length = crc32Buckets.toNat
  fits : counts.sum < 2 ^ 64

namespace BucketHistogram

/-! ## Counting -/

def new : BucketHistogram where
  counts := List.replicate crc32Buckets.toNat 0
  length_counts := List.length_replicate
  fits := by
    rw [List.sum_replicate, smul_zero]
    exact Nat.two_pow_pos 64

def total (h : BucketHistogram) : ℕ := h.counts.sum % 2 ^ 64

theorem total_eq (h : BucketHistogram) : h.total = h.counts.sum := Nat.mod_eq_of_lt h.fits

theorem crc32Bucket_lt (env : SampleEnv) (docid : String) :
    (crc32Bucket env docid).toNat < crc32Buckets.toNat := by
  rw [crc32Bucket, UInt32.toNat_mod]
  exact Nat.mod_lt _ (by decide)

/-- One more in a bucket. -/
theorem sum_modify_add_one (cs : List ℕ) {i : ℕ} (hi : i < cs.length) :
    (cs.modify i (· + 1)).sum = cs.sum + 1 := by
  induction cs generalizing i with
  | nil => exact absurd hi (Nat.not_lt_zero i)
  | cons c cs ih =>
      cases i with
      | zero =>
          rw [List.modify_zero_cons, List.sum_cons, List.sum_cons]
          exact Nat.add_right_comm c 1 cs.sum
      | succ i =>
          rw [List.modify_succ_cons, List.sum_cons, List.sum_cons,
            ih (Nat.lt_of_succ_lt_succ hi)]
          exact (Nat.add_assoc c cs.sum 1).symm

/-- `self.counts[crc32_bucket(docid)] += 1`, where there is room for one more passage. -/
def add (env : SampleEnv) (h : BucketHistogram) (docid : String) (hroom : h.total + 1 < 2 ^ 64) :
    BucketHistogram where
  counts := h.counts.modify (crc32Bucket env docid).toNat (· + 1)
  length_counts := (List.length_modify ..).trans h.length_counts
  fits := by
    have hbucket : (crc32Bucket env docid).toNat < h.counts.length := by
      rw [h.length_counts]
      exact crc32Bucket_lt env docid
    rw [sum_modify_add_one h.counts hbucket, ← h.total_eq]
    exact hroom

/-- The counts of another shard folded in, where there is room for its passages. -/
def merge (h other : BucketHistogram) (hroom : h.total + other.total < 2 ^ 64) :
    BucketHistogram where
  counts := List.zipWith (· + ·) h.counts other.counts
  length_counts := by
    rw [List.length_zipWith, h.length_counts, other.length_counts, min_self]
  fits := by
    have hlen : h.counts.length = other.counts.length :=
      h.length_counts.trans other.length_counts.symm
    rw [← List.sum_add_sum_eq_sum_zipWith_of_length_eq _ _ hlen, ← h.total_eq, ← other.total_eq]
    exact hroom

/-! ## Thresholds -/

/-- How many passages a threshold selects. -/
def countBelow (h : BucketHistogram) (threshold : ℕ) : ℕ :=
  (h.counts.take (min threshold h.counts.length)).sum % 2 ^ 64

/-- The threshold whose count is closest to `target`, with that count. -/
def thresholdFor (h : BucketHistogram) (target : ℕ) : ℕ × ℕ :=
  let lo := bisect (fun mid ↦ h.countBelow mid < target) 0 crc32Buckets.toNat
  let up := (lo, h.countBelow lo)
  if lo = 0 then up
  else
    -- the one before may be closer from underneath
    let down := (lo - 1, h.countBelow (lo - 1))
    if target.dist down.2 ≤ target.dist up.2 then down else up

theorem countBelow_eq (h : BucketHistogram) (threshold : ℕ) :
    h.countBelow threshold = (h.counts.take threshold).sum := by
  rw [countBelow, ← List.take_eq_take_min]
  refine Nat.mod_eq_of_lt (lt_of_le_of_lt ?_ h.fits)
  exact (List.take_sublist threshold h.counts).sum_le_sum fun _ _ ↦ Nat.zero_le _

theorem monotone_countBelow (h : BucketHistogram) : Monotone h.countBelow := by
  intro s t hst
  rw [h.countBelow_eq, h.countBelow_eq]
  exact (List.take_sublist_take_left hst).sum_le_sum fun _ _ ↦ Nat.zero_le _

/-- One more passage is selected where its bucket is below the threshold. -/
theorem sum_take_modify_add_one (cs : List ℕ) {i : ℕ} (hi : i < cs.length) (t : ℕ) :
    ((cs.modify i (· + 1)).take t).sum = (cs.take t).sum + if i < t then 1 else 0 := by
  rw [List.take_modify]
  split_ifs with ht
  · exact sum_modify_add_one _ (by rw [List.length_take]; exact lt_min ht hi)
  · rw [List.modify_eq_self (by rw [List.length_take]; omega)]
    rfl

/-- A threshold selects the passages that `keeps` keeps. -/
theorem countBelow_add (env : SampleEnv) (h : BucketHistogram) (docid : String)
    (hroom : h.total + 1 < 2 ^ 64) (threshold : UInt32) :
    (h.add env docid hroom).countBelow threshold.toNat =
      h.countBelow threshold.toNat + if keeps env docid threshold then 1 else 0 := by
  have hbucket : (crc32Bucket env docid).toNat < h.counts.length := by
    rw [h.length_counts]
    exact crc32Bucket_lt env docid
  rw [countBelow_eq, countBelow_eq, add, sum_take_modify_add_one _ hbucket, keeps]
  simp only [decide_eq_true_eq, UInt32.lt_iff_toNat_lt]

theorem countBelow_new (threshold : ℕ) : new.countBelow threshold = 0 := by
  rw [countBelow_eq, new, List.take_replicate, List.sum_replicate, smul_zero]

theorem countBelow_merge (h other : BucketHistogram) (hroom : h.total + other.total < 2 ^ 64)
    (threshold : ℕ) :
    (h.merge other hroom).countBelow threshold =
      h.countBelow threshold + other.countBelow threshold := by
  have hlen : (h.counts.take threshold).length = (other.counts.take threshold).length := by
    rw [List.length_take, List.length_take, h.length_counts, other.length_counts]
  rw [countBelow_eq, countBelow_eq, countBelow_eq, merge, List.take_zipWith,
    List.sum_add_sum_eq_sum_zipWith_of_length_eq _ _ hlen]

/-- The histogram of the passages of some shards, counted in any order. -/
inductive Counts (env : SampleEnv) : List String → BucketHistogram → Prop
  | new : Counts env [] new
  | add {docids h docid hroom} (hcounts : Counts env docids h) :
      Counts env (docid :: docids) (h.add env docid hroom)
  | merge {docids docids' h other hroom} (hcounts : Counts env docids h)
      (hother : Counts env docids' other) :
      Counts env (docids ++ docids') (h.merge other hroom)

/-- A count below a threshold is the number of passages that the threshold keeps. -/
theorem Counts.countBelow {env : SampleEnv} {docids : List String} {h : BucketHistogram}
    (hcounts : Counts env docids h) (threshold : UInt32) :
    h.countBelow threshold.toNat = docids.countP fun docid ↦ keeps env docid threshold := by
  induction hcounts with
  | new => exact countBelow_new _
  | add _ ih => rw [countBelow_add, ih, List.countP_cons]
  | merge _ _ ih ih' => rw [countBelow_merge, ih, ih', List.countP_append]

theorem thresholdFor_le (h : BucketHistogram) (target : ℕ) :
    (h.thresholdFor target).1 ≤ crc32Buckets.toNat := by
  have hsearch : Bisects (fun mid ↦ h.countBelow mid < target) 0 crc32Buckets.toNat _ :=
    bisect_bisects (Nat.zero_le _)
  rw [thresholdFor]
  dsimp only
  split_ifs with hzero hdown
  · exact hsearch.le_hi
  · exact (Nat.sub_le _ 1).trans hsearch.le_hi
  · exact hsearch.le_hi

theorem thresholdFor_snd (h : BucketHistogram) (target : ℕ) :
    (h.thresholdFor target).2 = h.countBelow (h.thresholdFor target).1 := by
  rw [thresholdFor]
  dsimp only
  split_ifs <;> rfl

theorem dist_thresholdFor_le (h : BucketHistogram) (target : ℕ) {t : ℕ}
    (ht : t ≤ crc32Buckets.toNat) :
    target.dist (h.thresholdFor target).2 ≤ target.dist (h.countBelow t) := by
  have hsearch : Bisects (fun mid ↦ h.countBelow mid < target) 0 crc32Buckets.toNat _ :=
    bisect_bisects (Nat.zero_le _)
  have hnear := hsearch.dist_le h.monotone_countBelow ht
  rw [thresholdFor]
  dsimp only
  split_ifs with hzero hdown
  · exact hnear.resolve_left fun hbefore ↦ hbefore.1 hzero
  · exact hnear.elim And.right hdown.trans
  · exact hnear.elim (fun hbefore ↦ (not_le.mp hdown).le.trans hbefore.2) id

/-- No threshold selects a count that is closer to the target. -/
theorem thresholdFor_optimal (h : BucketHistogram) (target : ℕ) :
    (h.thresholdFor target).1 ≤ crc32Buckets.toNat ∧
    (h.thresholdFor target).2 = h.countBelow (h.thresholdFor target).1 ∧
    ∀ t ≤ crc32Buckets.toNat,
      target.dist (h.thresholdFor target).2 ≤ target.dist (h.countBelow t) := by
  refine ⟨thresholdFor_le h target, thresholdFor_snd h target, ?_⟩
  intro t ht
  exact dist_thresholdFor_le h target ht

/-- No threshold keeps a number of passages that is closer to the target. -/
theorem Counts.thresholdFor {env : SampleEnv} {docids : List String} {h : BucketHistogram}
    (hcounts : Counts env docids h) (target : ℕ) :
    ∃ threshold : UInt32, h.thresholdFor target =
        (threshold.toNat, docids.countP fun docid ↦ keeps env docid threshold) ∧
      ∀ t ≤ crc32Buckets,
        target.dist (docids.countP fun docid ↦ keeps env docid threshold) ≤
          target.dist (docids.countP fun docid ↦ keeps env docid t) := by
  have hlt : (h.thresholdFor target).1 < 2 ^ 32 :=
    lt_of_le_of_lt (thresholdFor_le h target) (by decide)
  have hnat : (UInt32.ofNat (h.thresholdFor target).1).toNat = (h.thresholdFor target).1 :=
    UInt32.toNat_ofNat_of_lt' hlt
  have hkept := hcounts.countBelow (.ofNat (h.thresholdFor target).1)
  rw [hnat, ← thresholdFor_snd] at hkept
  refine ⟨.ofNat (h.thresholdFor target).1, ?_, ?_⟩
  · rw [hnat, ← hkept]
  · intro t ht
    rw [← hkept, ← hcounts.countBelow]
    exact dist_thresholdFor_le h target (UInt32.le_iff_toNat_le.mp ht)

end BucketHistogram

end VectorDbBenchmark.Msmarco
