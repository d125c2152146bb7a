import ShunyaKV.Cmd.Info
import ShunyaKV.Lib.Gather
import ShunyaKV.Shard.Grows
import ShunyaKV.Smp.Forward

/-!
The report of `INFO` while the shards serve calls.

Every shard looks at itself when the message of the report reaches it, and the messages of the
shards are not ordered among each other or with the calls. The totals of the report are sums over
different moments.
-/

namespace ShunyaKV.Smp

open ShunyaKV.Lib.Steps ShunyaKV.Lib.Gather ShunyaKV.Lib.Decimal ShunyaKV.Lib.Json
open ShunyaKV.Lib.Tally (tally)
open ShunyaKV.Shard ShunyaKV.Cmd

/-- What a shard finds besides its store: the memory, and the misses that the handlers have
counted. -/
structure Surroundings where
  mem : MemoryStats
  cacheMiss : ℕ

def Machine.look (M : Machine) (c : Cluster) (i : ℕ) (e : Surroundings) : Stats :=
  collectStatistics e.mem (M.cfg i) { store := c.stores i, cacheMiss := e.cacheMiss }

/-- `fetchJsonInfo` while the cluster runs, up to `when_all_succeed`. -/
def Machine.fetch (M : Machine) :
    Gathering Cluster Stats → Move Act Surroundings → Option (Gathering Cluster Stats) :=
  Gathering.move (Cluster.act M) M.look

end ShunyaKV.Smp
