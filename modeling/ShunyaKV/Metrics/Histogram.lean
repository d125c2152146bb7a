import Mathlib.Data.Nat.Log
import Mathlib.Data.Rat.Floor
import ShunyaKV.Lib.Ranks

/-!
Latencies of requests, counted by powers of two.

Each shard counts its own samples, and the counts of all shards are merged before a quantile is
read off them. The rank of a quantile is computed here without rounding.
-/

namespace ShunyaKV.Metrics

open ShunyaKV.Lib

def kBuckets : ℕ := 64

instance : NeZero kBuckets := ⟨by decide⟩

structure LatencyHistogram where
  buckets : Fin kBuckets → ℕ := fun _ => 0
  count : ℕ := 0

namespace LatencyHistogram

/-- `__builtin_clzll`, for a number other than zero. -/
def builtinClzll (us : UInt64) : ℕ := 63 - us.toNat.log2

def index (us : UInt64) : Fin kBuckets :=
  if us ≠ 0 then
    let idx := 63 - builtinClzll us
    if kBuckets ≤ idx then Fin.ofNat kBuckets (kBuckets - 1) else Fin.ofNat kBuckets idx
  else 0

def addUs (h : LatencyHistogram) (us : UInt64) : LatencyHistogram where
  count := (h.count + 1) % 2 ^ 64
  buckets := Function.update h.buckets (index us) ((h.buckets (index us) + 1) % 2 ^ 64)

def mergeFrom (h other : LatencyHistogram) : LatencyHistogram where
  count := (h.count + other.count) % 2 ^ 64
  buckets := fun i => (h.buckets i + other.buckets i) % 2 ^ 64

/-- The loop of `quantile_us`, over the buckets that are left. -/
def scan (h : LatencyHistogram) (rank : ℕ) : List (Fin kBuckets) → ℕ → ℕ
  | [], _ => 2 ^ 64 - 1
  | i :: is, seen =>
    let seen := (seen + h.buckets i) % 2 ^ 64
    if rank ≤ seen then
      if 63 ≤ i.val then 2 ^ 64 - 1 else 2 ^ (i.val + 1) % 2 ^ 64 - 1
    else h.scan rank is seen

/-- What `quantile_us` returns for a rank. -/
def rankUs (h : LatencyHistogram) (rank : ℕ) : ℕ := h.scan rank (List.finRange kBuckets) 0

def quantileUs (h : LatencyHistogram) (q : ℚ) : ℕ :=
  if h.count = 0 then 0
  else
    let q := if q < 0 then 0 else q
    let q := if 1 < q then 1 else q
    let rank := ⌈q * h.count⌉.toNat
    let rank := if rank = 0 then 1 else rank
    h.rankUs rank

end LatencyHistogram

structure RequestLatencyCounters where
  total : LatencyHistogram := {}

def RequestLatencyCounters.mergeFrom (c other : RequestLatencyCounters) :
    RequestLatencyCounters where
  total := c.total.mergeFrom other.total

/-- The latencies of all shards, for the report at the end of a run. -/
def mergedLatency (perShard : List RequestLatencyCounters) : RequestLatencyCounters :=
  perShard.foldl RequestLatencyCounters.mergeFrom {}

namespace LatencyHistogram

/-! ### Buckets -/

/-- The bucket of a sample is its binary logarithm, and the first one for zero. -/
lemma index_val (us : UInt64) : (index us).val = us.toNat.log2 := by
  have hlog : us.toNat.log2 < 64 := by
    rcases Nat.eq_zero_or_pos us.toNat with h | h
    · rw [h]
      decide
    · exact (Nat.log2_lt (by omega)).mpr us.toNat_lt
  have hk : kBuckets = 64 := rfl
  unfold index builtinClzll
  split
  · dsimp only
    rw [if_neg (by omega), Fin.val_ofNat, Nat.mod_eq_of_lt (by omega)]
    omega
  · next h =>
    obtain rfl : us = 0 := not_not.mp h
    rfl

lemma index_mono {us us' : UInt64} (h : us ≤ us') : (index us).val ≤ (index us').val := by
  rw [index_val, index_val, Nat.log2_eq_log_two, Nat.log2_eq_log_two]
  exact Nat.log_mono_right h

def upper (i : ℕ) : ℕ := if 63 ≤ i then 2 ^ 64 - 1 else 2 ^ (i + 1) % 2 ^ 64 - 1

lemma upper_eq {i : ℕ} (hi : i < 64) : upper i = 2 ^ (i + 1) - 1 := by
  unfold upper
  split
  · obtain rfl : i = 63 := by omega
    rfl
  · rw [Nat.mod_eq_of_lt (Nat.pow_lt_pow_right (by decide) (by omega))]

/-- **The value returned for the bucket of a sample is within a factor of two of it.** -/
lemma upper_index (us : UInt64) :
    us.toNat ≤ upper (index us).val ∧ (1 ≤ us.toNat → upper (index us).val ≤ 2 * us.toNat - 1) ∧
      (us.toNat = 0 → upper (index us).val = 1) := by
  rw [upper_eq (index us).isLt, index_val]
  have hlt : us.toNat < 2 ^ (us.toNat.log2 + 1) := Nat.lt_log2_self
  refine ⟨by omega, fun hpos => ?_, fun hzero => by rw [hzero]; rfl⟩
  have hle : 2 ^ us.toNat.log2 ≤ us.toNat := Nat.log2_self_le (by omega)
  rw [Nat.pow_succ]
  omega

/-! ### Samples -/

/-- Histograms that have counted the samples `xs`, in whatever order and however split and
merged. -/
inductive Built : LatencyHistogram → List UInt64 → Prop
  | new : Built {} []
  | add {h : LatencyHistogram} {xs : List UInt64} (hb : Built h xs) (us : UInt64) :
    Built (h.addUs us) (us :: xs)
  | merge {h h' : LatencyHistogram} {xs ys : List UInt64} (hb : Built h xs) (hb' : Built h' ys) :
    Built (h.mergeFrom h') (xs ++ ys)

/-- The report merges what the shards have counted. -/
lemma built_mergedLatency {perShard : List RequestLatencyCounters} {xss : List (List UInt64)}
    (h : List.Forall₂ (fun c xs => Built c.total xs) perShard xss) :
    Built (mergedLatency perShard).total xss.flatten := by
  have hfold {c : RequestLatencyCounters} {xs : List UInt64} (hc : Built c.total xs) :
      Built (perShard.foldl RequestLatencyCounters.mergeFrom c).total (xs ++ xss.flatten) := by
    induction h generalizing c xs with
    | nil => simpa using hc
    | cons hx _ ih =>
      rw [List.flatten_cons, ← List.append_assoc]
      exact ih (c := c.mergeFrom _) (hc.merge hx)
  exact hfold .new

/-- **A histogram counts its samples**, in all and by bucket. -/
lemma Built.counts {h : LatencyHistogram} {xs : List UInt64} (hb : Built h xs) :
    h.count = xs.length % 2 ^ 64 ∧
      ∀ i, h.buckets i = (xs.countP fun us => index us = i) % 2 ^ 64 := by
  induction hb with
  | new => exact ⟨rfl, fun i => rfl⟩
  | @add h xs _ us ih =>
    obtain ⟨hcount, hbuckets⟩ := ih
    refine ⟨?_, fun i => ?_⟩
    · simp only [addUs, hcount, List.length_cons]
      omega
    · rw [List.countP_cons]
      by_cases hi : index us = i
      · subst hi
        simp only [addUs, Function.update_self, hbuckets, decide_true, if_true]
        omega
      · simp only [addUs, Function.update_of_ne (Ne.symm hi), hbuckets, hi, decide_false,
          Bool.false_eq_true, if_false, Nat.add_zero]
  | merge _ _ ih ih' =>
    obtain ⟨hcount, hbuckets⟩ := ih
    obtain ⟨hcount', hbuckets'⟩ := ih'
    refine ⟨?_, fun i => ?_⟩
    · simp only [mergeFrom, hcount, hcount', List.length_append]
      omega
    · simp only [mergeFrom, hbuckets, hbuckets', List.countP_append]
      omega

/-- How the samples were split and merged does not matter. -/
lemma Built.unique {h h' : LatencyHistogram} {xs ys : List UInt64} (hb : Built h xs)
    (hb' : Built h' ys) (hperm : xs.Perm ys) : h = h' := by
  obtain ⟨hcount, hbuckets⟩ := hb.counts
  obtain ⟨hcount', hbuckets'⟩ := hb'.counts
  obtain ⟨buckets, count⟩ := h
  obtain ⟨buckets', count'⟩ := h'
  simp only [mk.injEq]
  refine ⟨funext fun i => ?_, ?_⟩
  · exact (hbuckets i).trans ((hbuckets' i).trans (by rw [hperm.countP_eq])).symm
  · exact hcount.trans (hcount'.trans (by rw [hperm.length_eq])).symm

/-! ### Quantiles -/

lemma finRange_drop {k : ℕ} (hk : k < kBuckets) :
    (List.finRange kBuckets).drop k = ⟨k, hk⟩ :: (List.finRange kBuckets).drop (k + 1) := by
  rw [List.drop_eq_getElem_cons (by simpa using hk)]
  simp

def before (xs : List UInt64) (k : ℕ) : ℕ := Ranks.below (fun us => (index us).val) xs k

lemma before_le (xs : List UInt64) (k : ℕ) : before xs k ≤ xs.length := List.countP_le_length

lemma scan_round {h : LatencyHistogram} {xs : List UInt64} (hb : Built h xs)
    (hlen : xs.length < 2 ^ 64) (rank : ℕ) {k : ℕ} (hk : k < kBuckets) :
    h.scan rank ((List.finRange kBuckets).drop k) (before xs k) =
      if rank ≤ before xs (k + 1) then upper k
      else h.scan rank ((List.finRange kBuckets).drop (k + 1)) (before xs (k + 1)) := by
  have hbucket : h.buckets ⟨k, hk⟩ = xs.countP fun us => (index us).val = k := by
    have hle : (xs.countP fun us => index us = ⟨k, hk⟩) ≤ xs.length := List.countP_le_length
    rw [hb.counts.2, Nat.mod_eq_of_lt (by omega)]
    simp only [Fin.ext_iff]
  have hseen : (before xs k + h.buckets ⟨k, hk⟩) % 2 ^ 64 = before xs (k + 1) := by
    rw [hbucket, before, ← Ranks.below_succ]
    exact Nat.mod_eq_of_lt (Nat.lt_of_le_of_lt (before_le xs (k + 1)) hlen)
  rw [finRange_drop hk, scan]
  simp only [hseen]
  rfl

/-- **The loop ends in the bucket up to which there are enough samples.** -/
lemma scan_eq {h : LatencyHistogram} {xs : List UInt64} (hb : Built h xs)
    (hlen : xs.length < 2 ^ 64) {rank i : ℕ} (hi : i < kBuckets) (hbefore : before xs i < rank)
    (hupto : rank ≤ before xs (i + 1)) {k : ℕ} (hk : k ≤ i) :
    h.scan rank ((List.finRange kBuckets).drop k) (before xs k) = upper i := by
  induction hd : i - k generalizing k with
  | zero =>
    obtain rfl : k = i := by omega
    rw [scan_round hb hlen rank hi, if_pos hupto]
  | succ d ih =>
    -- the bucket is still to come, so that there are too few samples so far
    have hfew : before xs (k + 1) ≤ before xs i := Ranks.below_mono xs (by omega)
    rw [scan_round hb hlen rank (by omega), if_neg (by omega)]
    exact ih (by omega) (by omega)

def sorted (xs : List UInt64) : List UInt64 := xs.mergeSort fun us us' => us ≤ us'

lemma sorted_perm (xs : List UInt64) : (sorted xs).Perm xs := List.mergeSort_perm xs _

lemma sorted_pairwise (xs : List UInt64) : (sorted xs).Pairwise (· ≤ ·) := by
  have htrans (a b c : UInt64) (h : decide (a ≤ b)) (h' : decide (b ≤ c)) : decide (a ≤ c) :=
    decide_eq_true (UInt64.le_trans (of_decide_eq_true h) (of_decide_eq_true h'))
  have htotal (a b : UInt64) : decide (a ≤ b) || decide (b ≤ a) := by
    simpa using UInt64.le_total a b
  exact (List.pairwise_mergeSort htrans htotal xs).imp of_decide_eq_true

/-- **The value for a rank is that of the bucket of the sample with this rank.** -/
lemma rankUs_eq {h : LatencyHistogram} {xs : List UInt64} (hb : Built h xs)
    (hlen : xs.length < 2 ^ 64) {r : ℕ} {s : UInt64} (hs : (sorted xs)[r]? = some s) :
    h.rankUs (r + 1) = upper (index s).val := by
  obtain ⟨hr, rfl⟩ := List.getElem?_eq_some_iff.mp hs
  have hclasses : (sorted xs).Pairwise fun us us' => (index us).val ≤ (index us').val :=
    (sorted_pairwise xs).imp index_mono
  have hbefore := Ranks.below_le_of_sorted hclasses hr
  have hupto := Ranks.lt_below_of_sorted hclasses hr
  rw [Ranks.below_perm (sorted_perm xs)] at hbefore hupto
  have hscan := scan_eq hb hlen (index (sorted xs)[r]).isLt (Nat.lt_succ_of_le hbefore) hupto
    (Nat.zero_le _)
  rwa [before, Ranks.below_zero, List.drop_zero] at hscan

/-- The rank of a quantile, between the first and the last. -/
def rank (q : ℚ) (n : ℕ) : ℕ := max 1 ⌈max 0 (min q 1) * n⌉.toNat

lemma rank_le {q : ℚ} {n : ℕ} (hn : 1 ≤ n) : rank q n ≤ n := by
  have hq : max 0 (min q 1) ≤ 1 := max_le (by norm_num) (min_le_right q 1)
  have hceil : ⌈max 0 (min q 1) * n⌉ ≤ (n : ℤ) := by
    rw [Int.ceil_le]
    push_cast
    exact mul_le_of_le_one_left (by positivity) hq
  unfold rank
  omega

lemma quantileUs_eq {h : LatencyHistogram} (hcount : h.count ≠ 0) (q : ℚ) :
    h.quantileUs q = h.rankUs (rank q h.count) := by
  have hclamp : (if (1 : ℚ) < (if q < 0 then 0 else q) then 1 else (if q < 0 then 0 else q)) =
      max 0 (min q 1) := by
    rcases lt_or_ge q 0 with hq | hq
    · rw [if_pos hq, if_neg (by norm_num), min_eq_left (by linarith), max_eq_left hq.le]
    · rw [if_neg (not_lt.mpr hq)]
      rcases lt_or_ge 1 q with h1 | h1
      · rw [if_pos h1, min_eq_right h1.le, max_eq_right (by norm_num)]
      · rw [if_neg (not_lt.mpr h1), min_eq_left h1, max_eq_right hq]
  have hrank (n : ℕ) : (if n = 0 then 1 else n) = max 1 n := by
    split <;> omega
  rw [quantileUs, if_neg hcount]
  simp only [hclamp, hrank, rank]

/-- **Quantiles are correct to a factor of two.** Let histograms have counted samples, however
these were split over them and in whatever order they were merged. For every rank, the value
returned is at least the sample with this rank, and less than twice it; for a sample of zero it
is one. A quantile is the value for the exact rank, and all histograms of these samples are
equal. -/
theorem quantiles_within_two {h : LatencyHistogram} {xs : List UInt64} (hb : Built h xs)
    (hlen : xs.length < 2 ^ 64) (hne : xs ≠ []) :
    (∀ r, 1 ≤ r → r ≤ xs.length → ∃ s, (sorted xs)[r - 1]? = some s ∧ s.toNat ≤ h.rankUs r ∧
      (1 ≤ s.toNat → h.rankUs r ≤ 2 * s.toNat - 1) ∧ (s.toNat = 0 → h.rankUs r = 1)) ∧
    (∀ q, h.quantileUs q = h.rankUs (rank q xs.length) ∧ 1 ≤ rank q xs.length ∧
      rank q xs.length ≤ xs.length) ∧
    ∀ h' ys, Built h' ys → ys.Perm xs → h' = h := by
  refine ⟨fun r hr hle => ?_, fun q => ?_, fun h' ys hb' hperm => hb'.unique hb hperm⟩
  · have hlt : r - 1 < (sorted xs).length := by
      rw [(sorted_perm xs).length_eq]
      omega
    have hs := List.getElem?_eq_getElem hlt
    refine ⟨_, hs, ?_⟩
    have hrank := rankUs_eq hb hlen hs
    rw [Nat.sub_add_cancel hr] at hrank
    rw [hrank]
    exact upper_index _
  · have hpos := List.length_pos_iff.mpr hne
    have hcount : h.count = xs.length := by rw [hb.counts.1, Nat.mod_eq_of_lt hlen]
    refine ⟨?_, Nat.le_max_left _ _, rank_le hpos⟩
    rw [quantileUs_eq (by omega), hcount]

/-- Three samples on two shards: the median in the report is 7, and the exact one is 5. -/
theorem quantile_of_three :
    ∃ perShard : List RequestLatencyCounters, perShard.length = 2 ∧
      Built (mergedLatency perShard).total [5, 0, 9] ∧
      (mergedLatency perShard).total.quantileUs (1 / 2) = 7 ∧
      ∃ s, (sorted [5, 0, 9])[1]? = some s ∧ s.toNat ≤ (mergedLatency perShard).total.rankUs 2 := by
  have hfirst := (Built.new.add 0).add 5
  have hsecond := Built.new.add 9
  have hb : Built (mergedLatency [{ total := _ }, { total := _ }]).total [5, 0, 9] :=
    built_mergedLatency (.cons hfirst (.cons hsecond .nil))
  obtain ⟨hrank, -, -⟩ := quantiles_within_two hb (by decide) (by decide)
  obtain ⟨s, hs, hle, -⟩ := hrank 2 (by decide) (by decide)
  exact ⟨_, rfl, hb, by decide +kernel, s, hs, hle⟩

end LatencyHistogram

end ShunyaKV.Metrics
