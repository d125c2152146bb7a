import ShunyaKV.Config.Loader
import ShunyaKV.Shard.State

/-!
How many entries the pool gets.

`init` takes the size it is asked for if that many entries fit into the memory allowed, and as
many as fit otherwise. Sums and products are those of 64 bits, so that a large request or a large
entry may look small.
-/

namespace ShunyaKV.Shard

open ShunyaKV.ConfigFile

/-- What the pool takes from the platform. Products of doubles are converted to a size. -/
structure Platform (δ : Type) where
  /-- `sizeof(ttl::Entry)` -/
  sizeofEntry : ℕ
  sizeofEntry_pos : 0 < sizeofEntry
  /-- `seastar::memory::stats().total_memory()` -/
  totalMemory : ℕ
  /-- `max_size()` of a `std::string` -/
  stringMaxSize : ℕ
  /-- `(1 - x) * n` -/
  unreserved : δ → ℕ → ℕ
  /-- `x * n` -/
  scale : δ → ℕ → ℕ
  scale_lt : ∀ x n, scale x n < 2 ^ 64
  /-- `n / m >= x` -/
  reaches : ℕ → ℕ → δ → Bool

structure CacheEntryPool (δ : Type) where
  valueOffset : ℕ := 65432
  poolMaxMemoryPercent : δ
  usableMemory : ℕ := 0
  maxSize : ℕ := 0
  probPoolMaxSize : ℕ := 0
  probThreshold : ℕ := 0
  reaperBudget : ℕ := 0
  initialized : Bool := false

namespace CacheEntryPool

variable {δ : Type} (pl : Platform δ)

/-- A pool for `maxSize` entries, or for as many as fit if this is zero. -/
def new [OfScientific δ] (maxSize : ℕ) : CacheEntryPool δ where
  poolMaxMemoryPercent := 0.7
  maxSize := maxSize

def getPerEntrySizeEstimate (p : CacheEntryPool δ) : ℕ :=
  (pl.sizeofEntry + p.valueOffset) % 2 ^ 64

def getMaxAllowedMemoryForPool (p : CacheEntryPool δ) : ℕ :=
  pl.scale p.poolMaxMemoryPercent p.usableMemory

/-- The result is `none` if the division is one by zero. -/
def calculateOptimalPoolSize (p : CacheEntryPool δ) : Option ℕ :=
  let targetMemory := p.getMaxAllowedMemoryForPool pl
  if targetMemory = 0 then some 0
  else
    let estimatedEntrySize := p.getPerEntrySizeEstimate pl
    if estimatedEntrySize = 0 then none else some (targetMemory / estimatedEntrySize)

/-- The probation pool of a pool whose size is settled. -/
def withProbation (cfg : DbConfig δ) (p : CacheEntryPool δ) : CacheEntryPool δ :=
  let probPoolMaxSize := pl.scale cfg.pool.probPoolSizePercent p.maxSize
  { p with
    probPoolMaxSize := probPoolMaxSize
    reaperBudget := cfg.evConfig.probEvict.probBudget
    probThreshold := pl.scale cfg.evConfig.probEvict.trigger probPoolMaxSize
    initialized := true }

/-- What `init` keeps of the configuration before it settles the size. -/
def configured (cfg : DbConfig δ) (p : CacheEntryPool δ) : CacheEntryPool δ :=
  { p with
    valueOffset := (cfg.pool.pageSizeGoal + cfg.pool.keyReserve) % 2 ^ 64
    usableMemory := pl.unreserved cfg.pool.memoryReservePercentage pl.totalMemory
    poolMaxMemoryPercent := cfg.pool.poolMaxMemoryPercent }

def init (cfg : DbConfig δ) (p : CacheEntryPool δ) : Option (CacheEntryPool δ) :=
  if p.initialized then some p
  else
    let p := configured pl cfg p
    if p.maxSize = 0 then
      (p.calculateOptimalPoolSize pl).map fun n => withProbation pl cfg { p with maxSize := n }
    else
      let estimatedPerEntrySize := p.getPerEntrySizeEstimate pl
      let totalMemReq := estimatedPerEntrySize * p.maxSize % 2 ^ 64
      if p.getMaxAllowedMemoryForPool pl < totalMemReq then
        (p.calculateOptimalPoolSize pl).map fun n => withProbation pl cfg { p with maxSize := n }
      else some (withProbation pl cfg p)

/-- What the store reads of the pool and the configuration from now on, if there is no exception
when the pool is filled. -/
def config (cfg : DbConfig δ) (p : CacheEntryPool δ) : Option Config :=
  if h : p.maxSize ≠ 0 → p.valueOffset ≤ pl.stringMaxSize then
    some
      { maxSize := p.maxSize
        probPoolMaxSize := p.probPoolMaxSize
        probThreshold := p.probThreshold
        reaperBudget := p.reaperBudget
        softBudget := cfg.evConfig.soft.budget
        softTriggered := fun used => pl.reaches used p.maxSize cfg.evConfig.soft.trigger
        valueFits := p.valueOffset ≤ pl.stringMaxSize
        fits := fun hm => decide_eq_true (h hm) }
  else none

lemma config_sizes {pl : Platform δ} {cfg : DbConfig δ} {p : CacheEntryPool δ} {c : Config}
    (h : p.config pl cfg = some c) :
    c.maxSize = p.maxSize ∧ c.probPoolMaxSize = p.probPoolMaxSize := by
  unfold config at h
  split at h
  · cases h
    exact ⟨rfl, rfl⟩
  · cases h

/-! ### What fits -/

def entrySize (cfg : DbConfig δ) : ℕ :=
  pl.sizeofEntry + cfg.pool.pageSizeGoal + cfg.pool.keyReserve

def allowed (cfg : DbConfig δ) : ℕ :=
  pl.scale cfg.pool.poolMaxMemoryPercent
    (pl.unreserved cfg.pool.memoryReservePercentage pl.totalMemory)

/-- A quotient with a divisor that has wrapped is right only if it is zero. -/
lemma div_mod_mul_le_iff {M e : ℕ} (hM : M < 2 ^ 64) (he : e % 2 ^ 64 ≠ 0) :
    M / (e % 2 ^ 64) * e ≤ M ↔ e < 2 ^ 64 ∨ M < e % 2 ^ 64 := by
  constructor
  · intro h
    by_contra hcon
    obtain ⟨hbig, hle⟩ := not_or.mp hcon
    have hone : 1 ≤ M / (e % 2 ^ 64) := (Nat.one_le_div_iff (by omega)).mpr (by omega)
    have : 1 * e ≤ M / (e % 2 ^ 64) * e := Nat.mul_le_mul_right e hone
    omega
  · rintro (hlt | hlt)
    · rw [Nat.mod_eq_of_lt hlt]
      exact Nat.div_mul_le_self M e
    · rw [Nat.div_eq_of_lt hlt]
      omega

/-- As many entries as fit, by an estimate `e` that may have wrapped. -/
def optimal (M e : ℕ) : Option ℕ := if M = 0 then some 0 else if e = 0 then none else some (M / e)

lemma optimal_fits_iff {M e : ℕ} (hM : M < 2 ^ 64) (hpos : 0 < e) :
    (∃ n, optimal M (e % 2 ^ 64) = some n ∧ n * e ≤ M) ↔
      e < 2 ^ 64 ∨ M = 0 ∨ M < e % 2 ^ 64 := by
  unfold optimal
  by_cases hzero : M = 0
  · simp [hzero]
  · rw [if_neg hzero]
    by_cases he : e % 2 ^ 64 = 0
    · rw [if_pos he]
      constructor
      · rintro ⟨n, hn, -⟩
        cases hn
      · omega
    · rw [if_neg he]
      simp only [Option.some.injEq, exists_eq_left', div_mod_mul_le_iff hM he, hzero, false_or]

section Init

variable [OfScientific δ] (cfg : DbConfig δ) (m : ℕ)

/-- The size of the pool after `init`, from the sizes without wrapping. -/
lemma maxSize_init : (init pl cfg (new m)).map maxSize =
    if m ≠ 0 ∧ m * entrySize pl cfg % 2 ^ 64 ≤ allowed pl cfg then some m
    else optimal (allowed pl cfg) (entrySize pl cfg % 2 ^ 64) := by
  have hestimate : (configured pl cfg (new m)).getPerEntrySizeEstimate pl =
      entrySize pl cfg % 2 ^ 64 := by
    simp only [getPerEntrySizeEstimate, configured, entrySize]
    omega
  have hallowed : (configured pl cfg (new m)).getMaxAllowedMemoryForPool pl = allowed pl cfg := rfl
  have htotal : entrySize pl cfg % 2 ^ 64 * m % 2 ^ 64 = m * entrySize pl cfg % 2 ^ 64 := by
    rw [Nat.mod_mul_mod, Nat.mul_comm]
  have hsize : (configured pl cfg (new m)).maxSize = m := rfl
  have hoptimal : (configured pl cfg (new m)).calculateOptimalPoolSize pl =
      optimal (allowed pl cfg) (entrySize pl cfg % 2 ^ 64) := by
    rw [calculateOptimalPoolSize, hestimate, hallowed, optimal]
  have hmap (x : Option ℕ) : (x.map fun n => withProbation pl cfg
      { configured pl cfg (new m) with maxSize := n }).map maxSize = x := by
    cases x <;> rfl
  rw [init, if_neg (by simp [new])]
  simp only [hsize, hestimate, hallowed, htotal, hoptimal]
  by_cases hm : m = 0
  · rw [if_pos hm, if_neg fun h => h.1 hm, hmap]
  · rw [if_neg hm]
    by_cases hle : m * entrySize pl cfg % 2 ^ 64 ≤ allowed pl cfg
    · rw [if_neg (Nat.not_lt.mpr hle), if_pos ⟨hm, hle⟩]
      rfl
    · rw [if_pos (Nat.lt_of_not_le hle), if_neg fun h => hle h.2, hmap]

/-- **The pool fits into the memory allowed, unless a size wraps to one that does.** It is set up
without a division by zero and its entries take no more than the memory allowed, exactly if the
request does not wrap or still exceeds the memory, and an entry does not wrap or still exceeds
it. -/
theorem init_fits_iff :
    (∃ p, init pl cfg (new m) = some p ∧ p.maxSize * entrySize pl cfg ≤ allowed pl cfg) ↔
      (m * entrySize pl cfg < 2 ^ 64 ∨ allowed pl cfg < m * entrySize pl cfg % 2 ^ 64) ∧
      (entrySize pl cfg < 2 ^ 64 ∨ allowed pl cfg = 0 ∨
        allowed pl cfg < entrySize pl cfg % 2 ^ 64) := by
  have hM : allowed pl cfg < 2 ^ 64 := pl.scale_lt _ _
  have hpos : 0 < entrySize pl cfg := by
    have := pl.sizeofEntry_pos
    unfold entrySize
    omega
  have hsize : (∃ p, init pl cfg (new m) = some p ∧ p.maxSize * entrySize pl cfg ≤ allowed pl cfg) ↔
      ∃ n, (init pl cfg (new m)).map maxSize = some n ∧ n * entrySize pl cfg ≤ allowed pl cfg := by
    simp only [Option.map_eq_some_iff]
    constructor
    · rintro ⟨p, hp, hle⟩
      exact ⟨_, ⟨p, hp, rfl⟩, hle⟩
    · rintro ⟨_, ⟨p, hp, rfl⟩, hle⟩
      exact ⟨p, hp, hle⟩
  rw [hsize, maxSize_init]
  split_ifs with htaken
  · -- the request is taken, and is at least the size of one entry
    obtain ⟨hm, hle⟩ := htaken
    have hone : entrySize pl cfg ≤ m * entrySize pl cfg :=
      Nat.le_mul_of_pos_left _ (Nat.pos_of_ne_zero hm)
    simp only [Option.some.injEq, exists_eq_left']
    constructor
    · intro h
      exact ⟨.inl (by omega), .inl (by omega)⟩
    · rintro ⟨hwrap | hwrap, -⟩
      · rwa [Nat.mod_eq_of_lt hwrap] at hle
      · omega
  · rw [optimal_fits_iff hM hpos, iff_and_self]
    intro _
    rcases Nat.eq_zero_or_pos m with hm | hm
    · exact .inl (by simp [hm])
    · exact .inr (by omega)

end Init

def gigabyte : Platform ℚ where
  sizeofEntry := 120
  sizeofEntry_pos := by decide
  totalMemory := 2 ^ 30
  stringMaxSize := 2 ^ 62 - 1
  unreserved := fun _ n => n
  scale := fun _ n => n % 2 ^ 64
  scale_lt := fun _ n => Nat.mod_lt n (by decide)
  reaches := fun _ _ _ => false

def withEntries (pageSizeGoal keyReserve : ℕ) : DbConfig ℚ :=
  { builtIn with pool.pageSizeGoal := pageSizeGoal, pool.keyReserve := keyReserve }

/-- With the entries of the example configuration, a request for too many of them wraps to one for
few and is taken; with entries of 2⁶⁴ bytes, the size of the pool is a quotient by zero. -/
theorem not_fits_wrapped :
    (∃ p, init gigabyte (withEntries 7000 24) (new (2 ^ 64 / 7144 + 1)) = some p ∧
      p.maxSize = 2 ^ 64 / 7144 + 1 ∧ allowed gigabyte (withEntries 7000 24) <
        p.maxSize * entrySize gigabyte (withEntries 7000 24)) ∧
      init gigabyte (withEntries (2 ^ 64 - 120) 0) (new 0) = none := by
  refine ⟨⟨_, rfl, ?_⟩, ?_⟩
  · decide +kernel
  · decide +kernel

end CacheEntryPool

end ShunyaKV.Shard
