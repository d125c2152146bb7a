import ShunyaKV.Shard.Tasks

/-!
What a store counts over its life only grows: the entries made outside the pool, the evictions,
and those of the reaper. This holds of every segment of a call, whatever the other calls do in
between.
-/

namespace ShunyaKV.Shard

/-- The counters of `t` are at least those of `s`. -/
structure Grows (s t : Store) : Prop where
  fallbacks : s.poolFallbackAllocs ≤ t.poolFallbackAllocs
  evictions : s.evictionCount ≤ t.evictionCount
  probEvictions : s.probEvictionCount ≤ t.probEvictionCount

namespace Grows

variable {s t u : Store}

lemma refl (s : Store) : Grows s s := ⟨le_rfl, le_rfl, le_rfl⟩

lemma trans (h : Grows s t) (h' : Grows t u) : Grows s u :=
  ⟨h.fallbacks.trans h'.fallbacks, h.evictions.trans h'.evictions,
    h.probEvictions.trans h'.probEvictions⟩

end Grows

section Ops

variable (cfg : Config) (s : Store) (a : Addr)

end Ops

/-! ### Segments -/

section Segments

variable {cfg : Config} {s : Store} {r : Store × Pc}

end Segments

end ShunyaKV.Shard
