import ShunyaKV.Cmd.Handlers
import ShunyaKV.Lib.Json
import ShunyaKV.Lib.Tally
import ShunyaKV.Shard.Removals

/-!
The JSON texts of `INFO` and `NODE_INFO`, and what a client reads in them.

The texts are put together piece by piece. What goes into a string is not escaped: of that only
the name of the hash comes from the configuration, and it has to be plain.
-/

namespace ShunyaKV.Cmd

open ShunyaKV.Lib.Decimal ShunyaKV.Lib.Json ShunyaKV.Shard ShunyaKV.Hash
open ShunyaKV.Lib.Tally (tally)

/-! ### Statistics -/

structure MemoryStats where
  allocatedMemory : ℕ
  mallocs : ℕ
  freeMemory : ℕ
  totalMemory : ℕ
  failedAllocations : ℕ

/-- `STATS`, with the misses that `shard_stats` counts. -/
structure Stats where
  totalAllocs : ℕ := 0
  freeMem : ℕ := 0
  allocatedMem : ℕ := 0
  totalMem : ℕ := 0
  failedAlloc : ℕ := 0
  shardStats : ShardStatsSnapshot := ⟨0, 0, 0, 0, 0, 0, 0, 0⟩
  cacheMiss : ℕ := 0

def collectStatistics (mem : MemoryStats) (cfg : Config) (svc : Service) : Stats where
  allocatedMem := mem.allocatedMemory
  totalAllocs := mem.mallocs
  freeMem := mem.freeMemory
  totalMem := mem.totalMemory
  failedAlloc := mem.failedAllocations
  shardStats := svc.store.snapshotStats cfg
  cacheMiss := svc.cacheMiss

/-- A number of 64 bits as a `double`: 53 bits, the nearest, and the even one of two. -/
def toDouble (n : ℕ) : ℕ :=
  if n < 2 ^ 53 then n
  else
    let e := n.log2 - 52
    let q := n / 2 ^ e
    let r := n % 2 ^ e
    if 2 ^ e < 2 * r ∨ 2 ^ e = 2 * r ∧ q % 2 = 1 then (q + 1) * 2 ^ e else q * 2 ^ e

/-- What `{:.2f}` writes for the `double` `n / 1024 ^ unit`: digits, and a point. -/
structure Fixed where
  text : ℕ → ℕ → Bytes
  digits : ∀ n unit, ∀ b ∈ text n unit, IsDigit b ∨ b = 46

def units : List Bytes := [ascii "B", ascii "KB", ascii "MB", ascii "GB", ascii "TB"]

/-- The loop over the units: a quotient by 1024 is exact. -/
def unitOf (value : ℕ) : ℕ → ℕ → ℕ
  | 0, unit => unit
  | fuel + 1, unit =>
    if 1024 ^ (unit + 1) ≤ value ∧ unit + 1 < units.length then unitOf value fuel (unit + 1)
    else unit

def formatBytes (fx : Fixed) (bytes : ℕ) : Bytes :=
  let value := toDouble bytes
  let unit := unitOf value units.length 0
  (if unit = 0 then decimal bytes else fx.text value unit) ++ ascii " " ++ units.getD unit [] ++
    ascii " (" ++ decimal bytes ++ ascii " bytes)"

def memories : List (Bytes × (Stats → ℕ)) :=
  [(ascii "allocated_memory", Stats.allocatedMem), (ascii "free_memory", Stats.freeMem),
    (ascii "total_memory", Stats.totalMem)]

def counters : List (Bytes × (Stats → ℕ)) :=
  [(ascii "total_allocs", Stats.totalAllocs), (ascii "failed_allocs", Stats.failedAlloc),
    (ascii "pool_total_slots", (·.shardStats.poolTotalSlots)),
    (ascii "pool_available_slots", (·.shardStats.poolAvailableSlots)),
    (ascii "pool_fallback_allocs", (·.shardStats.poolFallbackAllocs)),
    (ascii "key_count", (·.shardStats.keyCount)), (ascii "cache_miss", Stats.cacheMiss),
    (ascii "eviction_count", (·.shardStats.evictionCount)),
    (ascii "prob_pool_total_slots", (·.shardStats.probationaryPoolTotalSlots)),
    (ascii "prob_pool_used_slots", (·.shardStats.probationaryPoolUsedSlots)),
    (ascii "prob_pool_eviction_count", (·.shardStats.probationaryEvictionCount))]

/-- The fields that the report has for a shard and for all shards, with their texts. -/
def Stats.fields (fx : Fixed) (stats : Stats) : List (Bytes × Bytes) :=
  memories.map (fun c => (c.1, quoted (formatBytes fx (c.2 stats)))) ++
    counters.map fun c => (c.1, decimal (c.2 stats))

def jsonOf (fields : List (Bytes × Bytes)) : Bytes := object (fields.map fun f => field f.1 f.2)

def Stats.add (total stats : Stats) : Stats where
  totalAllocs := (total.totalAllocs + stats.totalAllocs) % 2 ^ 64
  freeMem := (total.freeMem + stats.freeMem) % 2 ^ 64
  allocatedMem := (total.allocatedMem + stats.allocatedMem) % 2 ^ 64
  totalMem := (total.totalMem + stats.totalMem) % 2 ^ 64
  failedAlloc := (total.failedAlloc + stats.failedAlloc) % 2 ^ 64
  shardStats :=
    let t := total.shardStats
    let s := stats.shardStats
    { poolFallbackAllocs := (t.poolFallbackAllocs + s.poolFallbackAllocs) % 2 ^ 64
      poolAvailableSlots := (t.poolAvailableSlots + s.poolAvailableSlots) % 2 ^ 64
      poolTotalSlots := (t.poolTotalSlots + s.poolTotalSlots) % 2 ^ 64
      keyCount := (t.keyCount + s.keyCount) % 2 ^ 64
      evictionCount := (t.evictionCount + s.evictionCount) % 2 ^ 64
      probationaryPoolTotalSlots :=
        (t.probationaryPoolTotalSlots + s.probationaryPoolTotalSlots) % 2 ^ 64
      probationaryPoolUsedSlots :=
        (t.probationaryPoolUsedSlots + s.probationaryPoolUsedSlots) % 2 ^ 64
      probationaryEvictionCount :=
        (t.probationaryEvictionCount + s.probationaryEvictionCount) % 2 ^ 64 }
  cacheMiss := (total.cacheMiss + stats.cacheMiss) % 2 ^ 64

/-- The report, of the statistics of all shards in their order. -/
def fetchJsonInfo (fx : Fixed) (perShard : List Stats) : Bytes :=
  let total := perShard.foldl Stats.add {}
  jsonOf
    [(ascii "shard_info", list (perShard.zipIdx.map fun s =>
        jsonOf ((ascii "shard_id", decimal s.2) :: s.1.fields fx))),
      (ascii "shard_cumulative_info", jsonOf (total.fields fx))]

/-! ### What is read of them -/

def fieldValues (fx : Fixed) (get : (Stats → ℕ) → ℕ) : List (Bytes × Value) :=
  memories.map (fun c => (c.1, .str (formatBytes fx (get c.2)))) ++
    counters.map fun c => (c.1, .num (get c.2))

/-- The report as a value: every shard with its number and its statistics, and the sums. -/
def infoValue (fx : Fixed) (perShard : List Stats) : Value :=
  .obj
    [(ascii "shard_info", .arr (perShard.zipIdx.map fun s =>
        .obj ((ascii "shard_id", .num s.2) :: fieldValues fx fun get => get s.1))),
      (ascii "shard_cumulative_info", .obj (fieldValues fx fun get => tally get perShard % 2 ^ 64))]

lemma isPlain_of_isDigit {b : UInt8} (h : IsDigit b) : IsPlain b := by
  obtain ⟨h1, h2⟩ := h
  refine ⟨?_, ?_, by omega⟩
  · rintro rfl
    exact absurd h1 (by decide)
  · rintro rfl
    exact absurd h2 (by decide)

lemma isText_decimal (n : ℕ) : IsText (decimal n) :=
  fun _ hb => isPlain_of_isDigit (isDigit_of_mem_decimal hb)

lemma isText_unit (u : ℕ) : IsText (units.getD u []) := by
  have hunits : ∀ t ∈ [] :: units, IsText t := by decide
  refine hunits _ ?_
  rw [List.getD]
  rcases hu : units[u]? with _ | t
  · exact List.mem_cons_self
  · exact List.mem_cons_of_mem _ (List.mem_of_getElem? hu)

lemma isText_formatBytes (fx : Fixed) (bytes : ℕ) : IsText (formatBytes fx bytes) := by
  have hblank : IsText (ascii " ") := by decide
  have hopen : IsText (ascii " (") := by decide
  have hbytes : IsText (ascii " bytes)") := by decide
  have hpoint : IsPlain 46 := by decide
  intro b hb
  simp only [formatBytes, List.mem_append] at hb
  rcases hb with ((((hb | hb) | hb) | hb) | hb) | hb
  · split at hb
    · exact isText_decimal bytes b hb
    · rcases fx.digits _ _ b hb with hd | rfl
      · exact isPlain_of_isDigit hd
      · exact hpoint
  · exact hblank b hb
  · exact isText_unit _ b hb
  · exact hopen b hb
  · exact isText_decimal bytes b hb
  · exact hbytes b hb

lemma readsField {name text : Bytes} {v : Value} (hname : IsText name)
    (htext : Reads text v) : ReadsField (name, text) (name, v) := ⟨rfl, hname, htext⟩

lemma isText_names : (∀ c ∈ memories, IsText c.1) ∧ ∀ c ∈ counters, IsText c.1 := by
  constructor <;> decide

lemma readsField_fields (fx : Fixed) {stats : Stats} {get : (Stats → ℕ) → ℕ}
    (hget : ∀ c ∈ memories ++ counters, c.2 stats = get c.2) :
    List.Forall₂ ReadsField (stats.fields fx) (fieldValues fx get) := by
  obtain ⟨hmem, hcount⟩ := isText_names
  refine List.rel_append ?_ ?_
  · rw [List.forall₂_map_left_iff, List.forall₂_map_right_iff, List.forall₂_same]
    intro c hc
    rw [hget c (List.mem_append_left _ hc)]
    exact readsField (hmem c hc) (reads_str (isText_formatBytes fx _))
  · rw [List.forall₂_map_left_iff, List.forall₂_map_right_iff, List.forall₂_same]
    intro c hc
    rw [hget c (List.mem_append_right _ hc)]
    exact readsField (hcount c hc) (reads_num _)

lemma get_foldl_add {get : Stats → ℕ}
    (hadd : ∀ total stats, get (Stats.add total stats) = (get total + get stats) % 2 ^ 64)
    (total : Stats) (perShard : List Stats) (htotal : get total < 2 ^ 64) :
    get (perShard.foldl Stats.add total) = (get total + tally get perShard) % 2 ^ 64 := by
  induction perShard generalizing total with
  | nil => exact (Nat.mod_eq_of_lt htotal).symm
  | cons stats perShard ih =>
    rw [List.foldl_cons, ih _ (by rw [hadd]; exact Nat.mod_lt _ (by decide)), hadd,
      Lib.Tally.tally_cons, Nat.mod_add_mod, Nat.add_assoc]

/-- The totals are the sums, in 64 bits. -/
lemma total_eq (perShard : List Stats) : ∀ c ∈ memories ++ counters,
    c.2 (perShard.foldl Stats.add {}) = tally c.2 perShard % 2 ^ 64 := by
  have hadd : ∀ c ∈ memories ++ counters, (∀ total stats,
      c.2 (Stats.add total stats) = (c.2 total + c.2 stats) % 2 ^ 64) ∧ c.2 {} = 0 := by
    intro c hc
    simp only [memories, counters, List.cons_append, List.nil_append, List.mem_cons,
      List.not_mem_nil, or_false] at hc
    rcases hc with rfl | rfl | rfl | rfl | rfl | rfl | rfl | rfl | rfl | rfl | rfl | rfl | rfl | rfl
    all_goals exact ⟨fun _ _ => rfl, rfl⟩
  intro c hc
  obtain ⟨h1, h2⟩ := hadd c hc
  rw [get_foldl_add h1 {} perShard (by rw [h2]; decide), h2, Nat.zero_add]

lemma reads_info (fx : Fixed) (perShard : List Stats) :
    Reads (fetchJsonInfo fx perShard) (infoValue fx perShard) := by
  refine reads_object (.cons (readsField (by decide) (reads_list ?_))
    (.cons (readsField (by decide) (reads_object ?_)) .nil))
  · rw [List.forall₂_map_left_iff, List.forall₂_map_right_iff, List.forall₂_same]
    intro s _
    exact reads_object (.cons (readsField (by decide) (reads_num s.2))
      (readsField_fields fx fun _ _ => rfl))
  · exact readsField_fields fx (total_eq perShard)

/-- **The report is read back.** The text of `INFO JSON` is a JSON text, in which a client finds
the statistics of each shard under its number, and for each of them the sum over all shards. -/
theorem info_read_back (fx : Fixed) (perShard : List Stats) :
    parse (fetchJsonInfo fx perShard) = some (infoValue fx perShard) :=
  (reads_info fx perShard).parse

example : fetchJsonInfo ⟨fun _ _ => [], by simp⟩ [] =
    ascii "\x7b\"shard_info\":[],\"shard_cumulative_info\":\x7b\"allocated_memory\":" ++
    ascii "\"0 B (0 bytes)\",\"free_memory\":\"0 B (0 bytes)\",\"total_memory\":" ++
    ascii "\"0 B (0 bytes)\",\"total_allocs\":0,\"failed_allocs\":0,\"pool_total_slots\":0," ++
    ascii "\"pool_available_slots\":0,\"pool_fallback_allocs\":0,\"key_count\":0," ++
    ascii "\"cache_miss\":0,\"eviction_count\":0,\"prob_pool_total_slots\":0," ++
    ascii "\"prob_pool_used_slots\":0,\"prob_pool_eviction_count\":0\x7d\x7d" := by
  decide +kernel

/-! ### Ranges -/

def rangeValue (r : HashRange) : Value :=
  .arr [.str (decimal r.lo), .str (decimal r.hi), .num r.shard, .num r.port]

def nodeValue (cfg : NodeCfg) (more : List (Bytes × Value)) : Value :=
  .obj ([(ascii "epoch", .num cfg.epoch), (ascii "smp", .num cfg.smp),
    (ascii "base_port", .num cfg.basePort), (ascii "port_offset", .num cfg.portOffset),
    (ascii "hash", .str cfg.hash)] ++ more)

def rangesValue (v : List HashRange) : Bytes × Value :=
  (ascii "ranges", .arr (v.map rangeValue))

def computeHashRangesValue (cfg : NodeCfg) : Value :=
  match cfg.ranges with
  | none => .obj []
  | some v => nodeValue cfg [rangesValue v]

def computeHashValue (cfg : NodeCfg) (sid : ℕ) : Value :=
  match cfg.range sid with
  | none => .obj []
  | some r => nodeValue cfg [(ascii "current_shard", .num r.shard), rangesValue [r]]

lemma reads_range (r : HashRange) : Reads r.json (rangeValue r) := by
  have htext : r.json = list [quoted (decimal r.lo), quoted (decimal r.hi), decimal r.shard,
      decimal r.port] := by
    simp [HashRange.json, list, quoted, List.intercalate_cons_cons, ascii]
  rw [htext]
  exact reads_list (.cons (reads_str (isText_decimal _)) (.cons (reads_str (isText_decimal _))
    (.cons (reads_num _) (.cons (reads_num _) .nil))))

def nodeFields (cfg : NodeCfg) : List (Bytes × Bytes) :=
  [(ascii "epoch", decimal cfg.epoch), (ascii "smp", decimal cfg.smp),
    (ascii "base_port", decimal cfg.basePort), (ascii "port_offset", decimal cfg.portOffset),
    (ascii "hash", quoted cfg.hash)]

def rangesField (v : List HashRange) : Bytes × Bytes :=
  (ascii "ranges", list (v.map HashRange.json))

/-- The pieces make one object. -/
lemma computeHashRanges_eq {cfg : NodeCfg} {v : List HashRange} (h : cfg.ranges = some v) :
    computeHashRanges cfg = jsonOf (nodeFields cfg ++ [rangesField v]) := by
  rw [computeHashRanges, h]
  simp [NodeCfg.json, rangesJson, nodeFields, rangesField, jsonOf, object, field, quoted, list,
    List.intercalate_cons_cons, ascii]

lemma computeHash_eq {cfg : NodeCfg} {sid : ℕ} {r : HashRange} (h : cfg.range sid = some r) :
    computeHash cfg sid = jsonOf (nodeFields cfg ++
      [(ascii "current_shard", decimal r.shard), rangesField [r]]) := by
  rw [computeHash, h]
  simp [NodeCfg.json, rangesJson, nodeFields, rangesField, jsonOf, object, field, quoted, list,
    List.intercalate_cons_cons, ascii]

lemma readsField_node {cfg : NodeCfg} (hhash : IsText cfg.hash)
    {more : List (Bytes × Bytes)} {values : List (Bytes × Value)}
    (h : List.Forall₂ ReadsField more values) :
    parse (jsonOf (nodeFields cfg ++ more)) = some (nodeValue cfg values) := by
  refine Reads.parse (reads_object (List.rel_append ?_ h))
  exact .cons (readsField (by decide) (reads_num _)) (.cons (readsField (by decide) (reads_num _))
    (.cons (readsField (by decide) (reads_num _)) (.cons (readsField (by decide) (reads_num _))
      (.cons (readsField (by decide) (reads_str hhash)) .nil))))

lemma readsField_ranges (v : List HashRange) : ReadsField (rangesField v) (rangesValue v) := by
  refine readsField (by decide) (reads_list ?_)
  rw [List.forall₂_map_left_iff, List.forall₂_map_right_iff, List.forall₂_same]
  exact fun r _ => reads_range r

/-- A name that is not plain is never read. -/
lemma isText_of_parse_node {cfg : NodeCfg} {text : Bytes} {values : List (Bytes × Value)}
    (h : parse text = some (nodeValue cfg values)) : IsText cfg.hash := by
  cases plain_of_parse h with
  | obj hfields =>
    have hhash := hfields (ascii "hash", .str cfg.hash) (by simp)
    cases hhash with
    | str hplain => exact hplain

/-- **What `NODE_INFO` publishes is read back exactly if the name of the hash is plain**: without
quotes, backslashes and control characters. The other texts need no escapes. -/
theorem node_info_read_back_iff (cfg : NodeCfg) (sid : ℕ) :
    (parse (computeHashRanges cfg) = some (computeHashRangesValue cfg) ↔
      cfg.ranges = none ∨ IsText cfg.hash) ∧
    (parse (computeHash cfg sid) = some (computeHashValue cfg sid) ↔
      cfg.range sid = none ∨ IsText cfg.hash) := by
  have hempty : parse (ascii "\x7b\x7d") = some (.obj []) := rfl
  constructor
  · rcases h : cfg.ranges with _ | v
    · simp only [computeHashRanges, computeHashRangesValue, h, hempty, true_or]
    · rw [computeHashRanges_eq h, computeHashRangesValue, h]
      refine ⟨fun hparse => .inr (isText_of_parse_node hparse), fun hplain => ?_⟩
      exact readsField_node (hplain.resolve_left (by simp)) (.cons (readsField_ranges v) .nil)
  · rcases h : cfg.range sid with _ | r
    · simp only [computeHash, computeHashValue, h, hempty, true_or]
    · rw [computeHash_eq h, computeHashValue, h]
      refine ⟨fun hparse => .inr (isText_of_parse_node hparse), fun hplain => ?_⟩
      exact readsField_node (hplain.resolve_left (by simp))
        (.cons (readsField (by decide) (reads_num r.shard)) (.cons (readsField_ranges [r]) .nil))

end ShunyaKV.Cmd
