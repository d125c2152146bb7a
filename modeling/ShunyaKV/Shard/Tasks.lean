import ShunyaKV.Lib.Steps
import ShunyaKV.Shard.Ops

/-!
Calls as coroutines.

A call runs from one suspension point to the next. It may stop at each `maybe_yield`, which
the loops over victims reach after every thousandth one, and at each `co_await`, since a
future that is ready is still waited for when the reactor asks for a preemption. Between
two such points nothing else runs on the shard.

A step has no result where the code reads past the end of a list or takes the front of an
empty pool, which is undefined.
-/

namespace ShunyaKV.Shard

/-- Where a call is suspended. `fresh` is the entry that `do_prob_acquire` has made outside
the pool, if it has. -/
inductive Pc
  /-- in the loop of the reaper, at `maybe_yield` -/
  | reaping (count : ℕ) (victims : List Bytes) (fresh : Option Addr)
  /-- in the eviction callback, at `maybe_yield`, with keys left to remove -/
  | calling (left : List Bytes) (count : ℕ) (fresh : Option Addr)
  /-- in `do_prob_acquire`, after the reaper -/
  | reaped (fresh : Option Addr)
  /-- in `set`, after `acquire` -/
  | acquired (a : Addr)
  /-- in the loop of `SievePolicy::evict`, at `maybe_yield` -/
  | sieving (now count : ℕ) (victims : List Bytes)
  /-- in `check_memory_and_evict`, after `evict` -/
  | chosen (victims : List Bytes)
  /-- in the loop of `check_memory_and_evict`, at `maybe_yield` -/
  | removing (left : List Bytes) (count : ℕ)
  | done (r : Reply)
  deriving DecidableEq

/-- The loop over the victims of a batch, from the one numbered `count` on, and what is left
of the batch if it yields. -/
def removeLoop (cfg : Config) : List Bytes → ℕ → Store → Store × Option (List Bytes × ℕ)
  | [], _, s => (s, none)
  | key :: keys, count, s =>
    let s := s.evictKey cfg key
    if (count + 1) % 1000 = 0 then (s, some (keys, count + 1))
    else removeLoop cfg keys (count + 1) s

/-- The eviction callback, up to its end or its next yield. -/
def callback (cfg : Config) (keys : List Bytes) (count : ℕ) (fresh : Option Addr) (s : Store) :
    Store × Pc :=
  match removeLoop cfg keys count s with
  | (s, none) => (s, .reaped fresh)
  | (s, some (left, count)) => (s, .calling left count fresh)

def finishReaper (cfg : Config) (count : ℕ) (victims : List Bytes) (fresh : Option Addr)
    (s : Store) : Store × Pc :=
  let s := { s with probEvictionCount := s.probEvictionCount + count }
  if victims = [] then (s, .reaped fresh) else callback cfg victims 0 fresh s

/-- The loop of the reaper with the budget that is left, up to its end or its next yield. -/
def reapSegment (cfg : Config) (fresh : Option Addr) :
    ℕ → ℕ → List Bytes → Store → Option (Store × Pc)
  | 0, count, victims, s => some (finishReaper cfg count victims fresh s)
  | budget + 1, count, victims, s =>
    if s.probationList = [] then some (finishReaper cfg count victims fresh s)
    else
      match s.probationHand with
      | none => none
      | some a =>
        let t := s.reapTurn a
        let victims := victims ++ [t.2]
        if (count + 1) % 1000 = 0 then some (t.1, .reaping (count + 1) victims fresh)
        else reapSegment cfg fresh budget (count + 1) victims t.1

/-- A call that throws touches nothing any more, and its entry goes with its frame. -/
def unwind (fresh : Option Addr) (e : LengthError) (s : Store) : Store × Pc :=
  (fresh.elim s s.destroy, .done (.threw e))

def startReaper (cfg : Config) (fresh : Option Addr) (s : Store) : Option (Store × Pc) :=
  if s.probationList = [] then some (s, .reaped fresh)
  else
    let s := { s with probationHand := s.probationList.head? }
    if vectorMaxSize < cfg.reaperBudget then some (unwind fresh .vector s)
    else reapSegment cfg fresh cfg.reaperBudget 0 [] s

/-- `acquire` has an entry, or throws, or has taken the entry from an empty pool. -/
def toAcquired : Store × Except LengthError (Option Addr) → Option (Store × Pc)
  | (s, .ok (some a)) => some (s, .acquired a)
  | (_, .ok none) => none
  | (s, .error e) => some (unwind none e s)

def startWrite (cfg : Config) (s : Store) : Option (Store × Pc) :=
  let s := s.noteFallback
  if cfg.probPoolMaxSize = 0 then toAcquired (s.doAcquire cfg)
  else if s.pool = [] then
    if cfg.valueFits then startReaper cfg (some s.next) (s.alloc.countProbation s.next)
    else some (unwind none .string s)
  else if cfg.probThreshold ≤ s.probCount then startReaper cfg none s
  else toAcquired (Store.returned s.takeFront)

/-- The entry is filled and goes into the map. -/
def update (cfg : Config) (s : Store) (k v : Bytes) (deadline : Option ℕ) (a : Addr) : Store :=
  let s := s.modify a fun e =>
    { e with key := k, value := v, expiresAt := deadline.getD e.expiresAt }
  s.emplace cfg k a deadline.isSome

def finishEvict (victims : List Bytes) (s : Store) : Store × Pc :=
  ({ s with hand := if s.sieveList = [] then none
                    else if s.hand = none then s.sieveList.head? else s.hand }, .chosen victims)

/-- The loop of `SievePolicy::evict`, up to its end or its next yield. A turn moves the hand
on, so that the length of the list is fuel enough. -/
def sieveSegment (cfg : Config) (now : ℕ) : ℕ → ℕ → List Bytes → Store → Store × Pc
  | 0, _, victims, s => finishEvict victims s
  | fuel + 1, count, victims, s =>
    if count < cfg.softBudget then
      match s.hand with
      | none => finishEvict victims s
      | some a =>
        match s.evictTurn now a with
        | (s, some key) =>
          let victims := victims ++ [key]
          if s.sieveList = [] then finishEvict victims s
          else if (count + 1) % 1000 = 0 then (s, .sieving now (count + 1) victims)
          else sieveSegment cfg now fuel (count + 1) victims s
        | (s, none) => sieveSegment cfg now fuel count victims s
    else finishEvict victims s

def startEvict (cfg : Config) (now : ℕ) (s : Store) : Store × Pc :=
  if cfg.maxSize = 0 then (s, .done (.stored true))
  else if cfg.softTriggered (s.usedSlots cfg) then
    if vectorMaxSize < cfg.softBudget then unwind none .vector s
    else if s.sieveList = [] then (s, .chosen [])
    else
      let s := { s with hand := if s.hand = none then s.sieveList.head? else s.hand }
      sieveSegment cfg now s.sieveList.length 0 [] s
  else (s, .done (.stored true))

/-- The removal loop of `check_memory_and_evict`, up to its end or its next yield. -/
def removal (cfg : Config) (keys : List Bytes) (count : ℕ) (s : Store) : Store × Pc :=
  match removeLoop cfg keys count s with
  | (s, none) => (s, .done (.stored true))
  | (s, some (left, count)) => (s, .removing left count)

/-- A call from its start to its first suspension. A read has none. -/
def begin (cfg : Config) (now : ℕ) (s : Store) : Call → Option (Store × Pc)
  | .set _ _ => startWrite cfg s
  | .setWithTtl _ _ _ => startWrite cfg s
  | .get k => let r := s.get cfg k now; some (r.1, .done (.found r.2))

/-- A call from one suspension to the next, with the clock at its write and at its eviction
pass. -/
def resume (cfg : Config) (now later : ℕ) (s : Store) (call : Call) : Pc → Option (Store × Pc)
  | .reaping count victims fresh =>
    reapSegment cfg fresh (cfg.reaperBudget - count) count victims s
  | .calling left count fresh => some (callback cfg left count fresh s)
  | .reaped (some a) => some (s, .acquired a)
  | .reaped none => toAcquired (Store.returned s.takeFront)
  | .acquired a =>
    match call with
    | .set k v => some (startEvict cfg later (update cfg s k v none a))
    | .setWithTtl k v ttl =>
      some (startEvict cfg later (update cfg s k v (some (Store.due now ttl)) a))
    | .get _ => none
  | .sieving t count victims => some (sieveSegment cfg t s.sieveList.length count victims s)
  | .chosen victims => some (removal cfg victims 0 s)
  | .removing left count => some (removal cfg left count s)
  | .done _ => none

/-! ### A shard with its calls -/

/-- A call in progress. The code keeps no record of the clock at which the call has read or
written the map; it is kept here to state what the calls do. -/
structure Task where
  call : Call
  pc : Pc
  effect : Option ℕ

/-- The store and the calls of a connection in the order received. -/
structure Reactor where
  store : Store
  tasks : List Task

def Reactor.fresh (cfg : Config) : Reactor := ⟨start cfg, []⟩

/-- The next request arrives and is started, or a suspended call is resumed. -/
inductive Action
  | arrive (call : Call) (now : ℕ)
  | resume (i now later : ℕ)

/-- A read takes effect at once. -/
def Call.effect (now : ℕ) : Call → Option ℕ
  | .get _ => some now
  | _ => none

/-- A write takes effect when it has its entry. -/
def Task.next (t : Task) (now : ℕ) (pc : Pc) : Task :=
  match t.pc with
  | .acquired _ => { t with pc := pc, effect := some now }
  | _ => { t with pc := pc }

@[simp] lemma Task.next_pc (t : Task) (now : ℕ) (pc : Pc) : (t.next now pc).pc = pc := by
  unfold Task.next
  split <;> rfl

def Reactor.act (cfg : Config) (σ : Reactor) : Action → Option Reactor
  | .arrive call now =>
    (begin cfg now σ.store call).map fun r =>
      ⟨r.1, σ.tasks ++ [⟨call, r.2, call.effect now⟩]⟩
  | .resume i now later =>
    σ.tasks[i]?.bind fun t =>
      (resume cfg now later σ.store t.call t.pc).map fun r =>
        ⟨r.1, σ.tasks.set i (t.next now r.2)⟩

end ShunyaKV.Shard
