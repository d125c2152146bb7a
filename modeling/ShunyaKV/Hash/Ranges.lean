import ShunyaKV.Lib.Decimal
import ShunyaKV.Lib.Parts
import ShunyaKV.Shard.State

/-!
Which shard owns a hash, and the hash ranges that the node publishes for its shards.
-/

namespace ShunyaKV.Hash

open ShunyaKV.Lib ShunyaKV.Lib.Decimal ShunyaKV.Shard

/-- FNV-1a; the product by the prime is written with shifts. -/
def fnv1a64 (s : Bytes) : UInt64 :=
  s.foldl (fun hval b =>
    let hval := hval ^^^ b.toUInt64
    hval + ((hval <<< 1) + (hval <<< 4) + (hval <<< 5) + (hval <<< 7) + (hval <<< 8) +
      (hval <<< 40))) 0xcbf29ce484222325

def ownerShard (h smp first : ℕ) : ℕ :=
  if smp ≤ first then first
  else
    let d := smp - first
    (first + h * d / 2 ^ 64 % 2 ^ 32) % 2 ^ 32

def shardFor (smp first : ℕ) (key : Bytes) : ℕ :=
  if smp ≤ first then first
  else
    let d := smp - first
    let h := (fnv1a64 key).toNat
    let idx := h * d / 2 ^ 64 % 2 ^ 32
    (first + idx) % 2 ^ 32

lemma shardFor_eq (smp first : ℕ) (key : Bytes) :
    shardFor smp first key = ownerShard (fnv1a64 key).toNat smp first := rfl

structure NodeCfg where
  basePort : ℕ := 60110
  smp : ℕ := 1
  portOffset : ℕ := 0
  hash : Bytes := ascii "fnv1a435345"
  epoch : ℕ := 1
  deriving DecidableEq, Repr

/-- Both ends are inclusive. -/
structure HashRange where
  lo : ℕ
  hi : ℕ
  shard : ℕ
  port : ℕ
  deriving DecidableEq, Repr

def NodeCfg.firstSid (cfg : NodeCfg) : ℕ := if cfg.portOffset ≠ 0 then 1 else 0

/-- The range of the `i`-th of `d` data shards. -/
def NodeCfg.hashRange (cfg : NodeCfg) (d i sid : ℕ) : HashRange where
  lo := 2 ^ 64 * i / d % 2 ^ 64
  hi := (2 ^ 64 * (i + 1) / d - 1) % 2 ^ 64
  shard := sid
  port := (cfg.basePort + sid) % 2 ^ 16

/-- The ranges that `compute_hash_ranges` prints, unless it prints an empty object. -/
def NodeCfg.ranges (cfg : NodeCfg) : Option (List HashRange) :=
  let firstSid := cfg.firstSid
  let lastSid := cfg.smp
  if cfg.smp = 0 ∨ lastSid < firstSid then none
  else
    let d := lastSid - firstSid
    some ((List.range d).map fun i => cfg.hashRange d i (firstSid + i))

/-- The range that `compute_hash` prints, unless it prints an empty object. -/
def NodeCfg.range (cfg : NodeCfg) (sid : ℕ) : Option HashRange :=
  let firstSid := cfg.firstSid
  let lastSid := cfg.smp
  if cfg.smp = 0 ∨ lastSid < firstSid then none
  else
    let d := lastSid - firstSid
    if d = 0 then none
    else if sid < firstSid ∨ lastSid ≤ sid then none
    else some (cfg.hashRange d (sid - firstSid) sid)

def HashRange.json (r : HashRange) : Bytes :=
  ascii "[\"" ++ decimal r.lo ++ ascii "\",\"" ++ decimal r.hi ++ ascii "\"," ++
    decimal r.shard ++ ascii "," ++ decimal r.port ++ ascii "]"

def rangesJson (v : List HashRange) : Bytes :=
  ascii "\"ranges\":[" ++ (ascii ",").intercalate (v.map HashRange.json) ++ ascii "]\x7d"

def NodeCfg.json (cfg : NodeCfg) : Bytes :=
  ascii "\x7b\"epoch\":" ++ decimal cfg.epoch ++ ascii ",\"smp\":" ++ decimal cfg.smp ++
    ascii ",\"base_port\":" ++ decimal cfg.basePort ++ ascii ",\"port_offset\":" ++
    decimal cfg.portOffset ++ ascii ",\"hash\":\"" ++ cfg.hash ++ ascii "\","

def computeHashRanges (cfg : NodeCfg) : Bytes :=
  match cfg.ranges with
  | none => ascii "\x7b\x7d"
  | some v => cfg.json ++ rangesJson v

def computeHash (cfg : NodeCfg) (sid : ℕ) : Bytes :=
  match cfg.range sid with
  | none => ascii "\x7b\x7d"
  | some r =>
    cfg.json ++ ascii "\"current_shard\":" ++ decimal r.shard ++ ascii "," ++ rangesJson [r]

def getSmpCount (cfg : NodeCfg) : Bytes := decimal cfg.smp

/-! ### Published and real owners -/

def HashRange.Holds (r : HashRange) (h : ℕ) : Prop := r.lo ≤ h ∧ h ≤ r.hi

/-- The owner of `h` is the one shard with a published range that holds `h`. -/
structure OwnershipAgrees (cfg : NodeCfg) (h : ℕ) : Prop where
  ranges (sid : ℕ) : (∃ v, cfg.ranges = some v ∧ ∃ r ∈ v, r.shard = sid ∧ r.Holds h) ↔
    sid = ownerShard h cfg.smp cfg.firstSid
  range (sid : ℕ) (hsid : sid < 2 ^ 16) :
    (∃ r, cfg.range sid = some r ∧ r.shard = sid ∧ r.Holds h) ↔
      sid = ownerShard h cfg.smp cfg.firstSid

/-- The owner of a hash is the part it scales to, among the data shards. -/
lemma ownerShard_eq {smp first h : ℕ} (hsmp : smp < 2 ^ 32) (hd : first < smp)
    (hh : h < 2 ^ 64) :
    ownerShard h smp first = first + Parts.part (2 ^ 64) (smp - first) h := by
  have hlt := Parts.part_lt (D := smp - first) hh (by omega)
  rw [ownerShard, if_neg (by omega)]
  change (first + Parts.part (2 ^ 64) (smp - first) h % 2 ^ 32) % 2 ^ 32 = _
  rw [Nat.mod_eq_of_lt (by omega), Nat.mod_eq_of_lt (by omega)]

section Data

variable {cfg : NodeCfg} (hsmp : cfg.smp < 2 ^ 32) (hd : cfg.firstSid < cfg.smp)

include hsmp hd

lemma holds_hashRange {i sid h : ℕ} (hi : i < cfg.smp - cfg.firstSid) :
    (cfg.hashRange (cfg.smp - cfg.firstSid) i sid).Holds h ↔
      Parts.start (2 ^ 64) (cfg.smp - cfg.firstSid) i ≤ h ∧
        h < Parts.start (2 ^ 64) (cfg.smp - cfg.firstSid) (i + 1) := by
  have hd' : 0 < cfg.smp - cfg.firstSid := by omega
  have hlo := Parts.start_lt hi (N := 2 ^ 64) (by decide)
  have hhi := Parts.start_le (N := 2 ^ 64) (Nat.succ_le_of_lt hi) hd'
  have hpos := Parts.start_succ_pos (N := 2 ^ 64) (i := i) hd' (by omega)
  unfold HashRange.Holds NodeCfg.hashRange
  simp only [Parts.start, Nat.succ_eq_add_one] at *
  rw [Nat.mod_eq_of_lt hlo, Nat.mod_eq_of_lt (by omega)]
  omega

lemma exists_ranges_iff (sid h : ℕ) :
    (∃ v, cfg.ranges = some v ∧ ∃ r ∈ v, r.shard = sid ∧ r.Holds h) ↔
      ∃ i < cfg.smp - cfg.firstSid, sid = cfg.firstSid + i ∧
        Parts.start (2 ^ 64) (cfg.smp - cfg.firstSid) i ≤ h ∧
        h < Parts.start (2 ^ 64) (cfg.smp - cfg.firstSid) (i + 1) := by
  have hne : ¬ (cfg.smp = 0 ∨ cfg.smp < cfg.firstSid) := by omega
  simp only [NodeCfg.ranges, if_neg hne, Option.some.injEq, exists_eq_left', List.mem_map,
    List.mem_range]
  constructor
  · rintro ⟨_, ⟨i, hi, rfl⟩, hsid, hholds⟩
    exact ⟨i, hi, hsid.symm, (holds_hashRange hsmp hd hi).mp hholds⟩
  · rintro ⟨i, hi, rfl, hholds⟩
    exact ⟨_, ⟨i, hi, rfl⟩, rfl, (holds_hashRange hsmp hd hi).mpr hholds⟩

/-- `compute_hash` publishes the range of one shard that `compute_hash_ranges` publishes for
it. -/
lemma exists_range_iff (sid h : ℕ) :
    (∃ r, cfg.range sid = some r ∧ r.shard = sid ∧ r.Holds h) ↔
      ∃ v, cfg.ranges = some v ∧ ∃ r ∈ v, r.shard = sid ∧ r.Holds h := by
  rw [exists_ranges_iff hsmp hd]
  have hne : ¬ (cfg.smp = 0 ∨ cfg.smp < cfg.firstSid) := by omega
  have hd' : cfg.smp - cfg.firstSid ≠ 0 := by omega
  simp only [NodeCfg.range, if_neg hne, if_neg hd']
  by_cases hsid : sid < cfg.firstSid ∨ cfg.smp ≤ sid
  · simp only [if_pos hsid, reduceCtorEq, false_and, exists_false, false_iff]
    rintro ⟨i, hi, rfl, -⟩
    omega
  · simp only [if_neg hsid, Option.some.injEq, exists_eq_left']
    have hi : sid - cfg.firstSid < cfg.smp - cfg.firstSid := by omega
    constructor
    · rintro ⟨-, hholds⟩
      exact ⟨_, hi, by omega, (holds_hashRange hsmp hd hi).mp hholds⟩
    · rintro ⟨i, hi', rfl, hholds⟩
      rw [Nat.add_sub_cancel_left]
      exact ⟨rfl, (holds_hashRange hsmp hd hi').mpr hholds⟩

/-- **The published owner is the real one** except for a hash at which the rounded range of
the next shard starts. -/
theorem ownershipAgrees_iff {h : ℕ} (hh : h < 2 ^ 64) :
    OwnershipAgrees cfg h ↔
      h * (cfg.smp - cfg.firstSid) % 2 ^ 64 + (cfg.smp - cfg.firstSid) ≤ 2 ^ 64 := by
  have hd' : 0 < cfg.smp - cfg.firstSid := by omega
  have howner := ownerShard_eq hsmp hd hh
  rw [← Parts.lt_start_part_iff hd']
  constructor
  · intro ha
    obtain ⟨i, -, hi, -, hlt⟩ := (exists_ranges_iff hsmp hd _ h).mp ((ha.ranges _).mpr rfl)
    rw [howner] at hi
    rwa [Nat.add_left_cancel hi]
  · intro hlt
    have hranges (sid : ℕ) : (∃ v, cfg.ranges = some v ∧ ∃ r ∈ v, r.shard = sid ∧ r.Holds h) ↔
        sid = ownerShard h cfg.smp cfg.firstSid := by
      rw [exists_ranges_iff hsmp hd, howner]
      constructor
      · rintro ⟨i, -, rfl, hi, hi'⟩
        rw [Parts.eq_of_start_le hi hi' (Parts.start_part_le h hd') hlt]
      · rintro rfl
        exact ⟨_, Parts.part_lt hh hd', rfl, Parts.start_part_le h hd', hlt⟩
    exact ⟨hranges, fun sid _ => (exists_range_iff hsmp hd sid h).trans (hranges sid)⟩

end Data

/-- Three data shards: the end of the first range and the first hash of the second shard. -/
theorem ownershipAgrees_boundary :
    OwnershipAgrees { smp := 3 } 6148914691236517204 ∧
      OwnershipAgrees { smp := 3 } 6148914691236517206 :=
  ⟨(ownershipAgrees_iff (by decide) (by decide) (by decide)).mpr (by decide),
    (ownershipAgrees_iff (by decide) (by decide) (by decide)).mpr (by decide)⟩

/-- The hash between them, a third of the space rounded down, is owned by the first of three shards
and lies in the range published for the second. -/
theorem not_ownershipAgrees_third :
    ¬ OwnershipAgrees { smp := 3 } 6148914691236517205 := by
  intro ha
  have hsecond := (ha.ranges 1).mp ⟨_, rfl,
    { lo := 6148914691236517205, hi := 12297829382473034409, shard := 1, port := 60111 },
    by decide, rfl, by decide, by decide⟩
  exact absurd hsecond (by decide)

end ShunyaKV.Hash
