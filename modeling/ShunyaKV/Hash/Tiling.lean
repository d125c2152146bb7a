import ShunyaKV.Hash.Ranges

/-!
How the hash space is divided: each data shard owns one interval of hashes, all of nearly the same
size, and the published ranges cover the space one after the other.
-/

namespace ShunyaKV.Hash

open ShunyaKV.Lib ShunyaKV.Lib.Decimal ShunyaKV.Shard

/-! ### Owners -/

section Owners

variable {smp first : ℕ} (hsmp : smp < 2 ^ 32) (hd : first < smp)

include hsmp hd

/-- The hashes of a data shard, between the first one of its part and that of the next part. -/
lemma ownerShard_eq_iff {h i : ℕ} (hh : h < 2 ^ 64) :
    ownerShard h smp first = first + i ↔
      Parts.first (2 ^ 64) (smp - first) i ≤ h ∧
        h < Parts.first (2 ^ 64) (smp - first) (i + 1) := by
  rw [ownerShard_eq hsmp hd hh, ← Parts.part_eq_iff (by decide) (by omega)]
  omega

/-- **The assignment of shards is a balanced partition.** Every hash belongs to a data shard, and
larger hashes to later ones; the `i`-th of `d` owns the hashes from `⌈2⁶⁴ * i / d⌉` to before
`⌈2⁶⁴ * (i + 1) / d⌉`. No interval is empty, and their sizes differ by at most one. The product is
one of 128 bits. -/
theorem ownerShard_balanced :
    (∀ h < 2 ^ 64, first ≤ ownerShard h smp first ∧ ownerShard h smp first < smp) ∧
    (∀ h h', h ≤ h' → h' < 2 ^ 64 → ownerShard h smp first ≤ ownerShard h' smp first) ∧
    (∀ i < smp - first, ∀ h < 2 ^ 64, ownerShard h smp first = first + i ↔
      Parts.first (2 ^ 64) (smp - first) i ≤ h ∧
        h < Parts.first (2 ^ 64) (smp - first) (i + 1)) ∧
    (∀ i < smp - first, Parts.first (2 ^ 64) (smp - first) i <
      Parts.first (2 ^ 64) (smp - first) (i + 1) ∧
        Parts.first (2 ^ 64) (smp - first) (i + 1) ≤ 2 ^ 64) ∧
    (∀ i < smp - first, ∀ j < smp - first,
      Parts.first (2 ^ 64) (smp - first) (i + 1) - Parts.first (2 ^ 64) (smp - first) i ≤
        Parts.first (2 ^ 64) (smp - first) (j + 1) - Parts.first (2 ^ 64) (smp - first) j + 1) ∧
    (∀ h < 2 ^ 64, h * (smp - first) < 2 ^ 128) ∧
    ∀ key, shardFor smp first key = ownerShard (fnv1a64 key).toNat smp first := by
  have hpos : 0 < smp - first := by omega
  refine ⟨fun h hh => ?_, fun h h' hle hh' => ?_, fun i _ h hh => ownerShard_eq_iff hsmp hd hh,
    fun i hi => ⟨Parts.first_lt_succ hpos (by omega) i, ?_⟩,
    fun i _ j _ => Parts.size_le_succ hpos i j, fun h hh => ?_, shardFor_eq smp first⟩
  · have := Parts.part_lt (D := smp - first) hh hpos
    rw [ownerShard_eq hsmp hd hh]
    omega
  · rw [ownerShard_eq hsmp hd (by omega), ownerShard_eq hsmp hd hh']
    exact Nat.add_le_add_left (Parts.part_mono hle) first
  · exact Parts.first_le hpos hi
  · calc h * (smp - first) < 2 ^ 64 * 2 ^ 32 :=
          Nat.mul_lt_mul_of_lt_of_le hh (by omega) (by decide)
      _ < 2 ^ 128 := by decide

end Owners

/-- Three data shards after an administrative one. -/
theorem ownerShard_balanced_three :
    ownerShard (2 ^ 63) 4 1 = 2 ∧ shardFor 4 1 [] < 4 := by
  obtain ⟨howner, -, hintervals, -, -, -, hkey⟩ :=
    ownerShard_balanced (show 4 < 2 ^ 32 by decide) (show 1 < 4 by decide)
  refine ⟨(hintervals 1 (by decide) (2 ^ 63) (by decide)).mpr (by decide), ?_⟩
  rw [hkey]
  exact (howner _ (UInt64.toNat_lt _)).2

/-! ### Published ranges -/

/-- Ranges that cover the hash space one after the other. -/
structure Tiles (v : List HashRange) : Prop where
  starts : v.head?.map HashRange.lo = some 0
  ends : v.getLast?.map HashRange.hi = some (2 ^ 64 - 1)
  nonempty : ∀ r ∈ v, r.lo ≤ r.hi
  adjacent : ∀ i r r', v[i]? = some r → v[i + 1]? = some r' → r.hi + 1 = r'.lo

/-- The `i`-th range, without the conversions to 64 bits. -/
def NodeCfg.exactRange (cfg : NodeCfg) (i : ℕ) : HashRange where
  lo := Parts.start (2 ^ 64) (cfg.smp - cfg.firstSid) i
  hi := Parts.start (2 ^ 64) (cfg.smp - cfg.firstSid) (i + 1) - 1
  shard := cfg.firstSid + i
  port := (cfg.basePort + (cfg.firstSid + i)) % 2 ^ 16

lemma hashRange_eq {cfg : NodeCfg} {i : ℕ} (hi : i < cfg.smp - cfg.firstSid) :
    cfg.hashRange (cfg.smp - cfg.firstSid) i (cfg.firstSid + i) = cfg.exactRange i := by
  have hlo := Parts.start_lt hi (N := 2 ^ 64) (by decide)
  have hhi := Parts.start_le (N := 2 ^ 64) (Nat.succ_le_of_lt hi) (by omega)
  simp only [NodeCfg.hashRange, NodeCfg.exactRange, Parts.start, Nat.succ_eq_add_one] at *
  rw [Nat.mod_eq_of_lt hlo, Nat.mod_eq_of_lt (by omega)]

section Published

variable {cfg : NodeCfg} (hd : cfg.firstSid < cfg.smp)

include hd

lemma ranges_eq :
    cfg.ranges = some ((List.range (cfg.smp - cfg.firstSid)).map cfg.exactRange) := by
  rw [NodeCfg.ranges, if_neg (by omega)]
  refine congrArg some (List.map_congr_left fun i hi => ?_)
  exact hashRange_eq (List.mem_range.mp hi)

lemma range_eq (sid : ℕ) : cfg.range sid =
    if cfg.firstSid ≤ sid ∧ sid < cfg.smp then some (cfg.exactRange (sid - cfg.firstSid))
    else none := by
  rw [NodeCfg.range, if_neg (by omega), if_neg (by omega)]
  by_cases hsid : cfg.firstSid ≤ sid ∧ sid < cfg.smp
  · rw [if_pos hsid, if_neg (by omega), ← hashRange_eq (by omega),
      Nat.add_sub_cancel' hsid.1]
  · rw [if_neg hsid, if_pos (by omega)]

lemma tiles_ranges (hsmp : cfg.smp < 2 ^ 32) :
    Tiles ((List.range (cfg.smp - cfg.firstSid)).map cfg.exactRange) := by
  have hpos : 0 < cfg.smp - cfg.firstSid := by omega
  have hlt (i : ℕ) := Parts.start_lt_succ (N := 2 ^ 64) hpos (by omega) i
  refine ⟨?_, ?_, ?_, ?_⟩
  · rw [List.head?_map, List.head?_range, if_neg (by omega)]
    simp [NodeCfg.exactRange, Parts.start_zero]
  · rw [List.getLast?_map, List.getLast?_range, if_neg (by omega)]
    simp [NodeCfg.exactRange, Nat.sub_add_cancel hpos, Parts.start_all hpos]
  · intro r hr
    obtain ⟨i, -, rfl⟩ := List.mem_map.mp hr
    exact Nat.le_sub_one_of_lt (hlt i)
  · intro i r r' hr hr'
    rw [List.getElem?_map, Option.map_eq_some_iff] at hr hr'
    obtain ⟨j, hj, rfl⟩ := hr
    obtain ⟨j', hj', rfl⟩ := hr'
    obtain ⟨-, rfl⟩ := List.getElem?_eq_some_iff.mp hj
    obtain ⟨-, rfl⟩ := List.getElem?_eq_some_iff.mp hj'
    rw [List.getElem_range, List.getElem_range]
    exact Nat.sub_add_cancel (Nat.lt_of_le_of_lt (Nat.zero_le _) (hlt i))

/-- **The published ranges tile the hash space.** They are the exact ones, one for each data shard
in order, and cover the space one after the other. What `compute_hash` reports of a shard is the
range listed for it, and nothing if it is no data shard. -/
theorem ranges_tile (hsmp : cfg.smp < 2 ^ 32) : ∃ v, cfg.ranges = some v ∧ Tiles v ∧
    v.map HashRange.shard = List.range' cfg.firstSid (cfg.smp - cfg.firstSid) ∧
    (∀ i < cfg.smp - cfg.firstSid, ∃ r, v[i]? = some r ∧
      r.lo = 2 ^ 64 * i / (cfg.smp - cfg.firstSid) ∧
      r.hi = 2 ^ 64 * (i + 1) / (cfg.smp - cfg.firstSid) - 1) ∧
    computeHashRanges cfg = cfg.json ++ rangesJson v ∧
    ∀ sid < 2 ^ 16, (∀ r ∈ v, r.shard = sid → cfg.range sid = some r ∧ computeHash cfg sid =
        cfg.json ++ ascii "\"current_shard\":" ++ decimal sid ++ ascii "," ++ rangesJson [r]) ∧
      ((∀ r ∈ v, r.shard ≠ sid) →
        cfg.range sid = none ∧ computeHash cfg sid = ascii "\x7b\x7d") := by
  have hranges := ranges_eq hd
  refine ⟨_, hranges, tiles_ranges hd hsmp, ?_, fun i hi => ?_, ?_, fun sid _ => ⟨?_, ?_⟩⟩
  · rw [List.map_map, List.range'_eq_map_range]
    rfl
  · exact ⟨cfg.exactRange i, by rw [List.getElem?_map, List.getElem?_range hi]; rfl, rfl, rfl⟩
  · rw [computeHashRanges, hranges]
  · intro r hr hshard
    obtain ⟨i, hi, rfl⟩ := List.mem_map.mp hr
    rw [List.mem_range] at hi
    obtain rfl : cfg.firstSid + i = sid := hshard
    have hrange : cfg.range (cfg.firstSid + i) = some (cfg.exactRange i) := by
      rw [range_eq hd, if_pos (by omega), Nat.add_sub_cancel_left]
    refine ⟨hrange, ?_⟩
    rw [computeHash, hrange]
    rfl
  · intro hno
    have hrange : cfg.range sid = none := by
      rw [range_eq hd, if_neg]
      rintro ⟨hle, hlt⟩
      refine hno (cfg.exactRange (sid - cfg.firstSid)) ?_ (Nat.add_sub_cancel' hle)
      exact List.mem_map_of_mem (List.mem_range.mpr (by omega))
    exact ⟨hrange, by rw [computeHash, hrange]⟩

end Published

/-- Three data shards, whose number does not divide the space. -/
theorem ranges_tile_three : ∃ v, ({ smp := 3 } : NodeCfg).ranges = some v ∧ Tiles v ∧
    v.map (fun r => (r.shard, r.lo, r.hi)) = [(0, 0, 6148914691236517204),
      (1, 6148914691236517205, 12297829382473034409),
      (2, 12297829382473034410, 18446744073709551615)] := by
  obtain ⟨v, hv, htiles, -⟩ := @ranges_tile { smp := 3 } (by decide) (by decide)
  refine ⟨v, hv, htiles, ?_⟩
  cases hv
  decide

end ShunyaKV.Hash
