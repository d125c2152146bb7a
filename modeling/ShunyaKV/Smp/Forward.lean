import ShunyaKV.Cmd.Grammar
import ShunyaKV.Lib.Journal
import ShunyaKV.Lib.Steps

/-!
Requests between shards.

A request makes its call on the shard of its key: directly if its connection is there, and
through `submit_to` otherwise. Either way the call starts some time after the request, since
`ensure_started` is waited for, runs on its shard from one suspension to the next, and its
result is back at the connection some time after the end. In between anything else runs.

The marks record what the calls read and write on the map and which keys are removed. The
code keeps no such record.
-/

namespace ShunyaKV.Smp

open ShunyaKV.Lib.Ttl ShunyaKV.Shard ShunyaKV.Hash ShunyaKV.Cmd

structure Machine where
  smp : ℕ
  firstDataShard : ℕ
  cfg : ℕ → Config

def Machine.owner (M : Machine) (key : Bytes) : ℕ := shardFor M.smp M.firstDataShard key

inductive Phase
  /-- on its way to the call, as a message or not -/
  | sent
  | running (pc : Pc)
  /-- the result is on its way back -/
  | returning (r : Reply)
  /-- the reply is written -/
  | acked (r : Reply)

structure Request where
  call : Call
  /-- The shard that makes the call. -/
  target : ℕ
  phase : Phase

/-- `handle_set` and `handle_get` on shard `self`, up to the call. -/
def Request.issued (M : Machine) (self : ℕ) (call : Call) : Request :=
  let sid := M.owner call.key
  let forwarded := sid ≠ self
  ⟨call, if forwarded then sid else self, .sent⟩

structure Cluster where
  stores : ℕ → Store
  requests : List Request

def Cluster.fresh (M : Machine) : Cluster := ⟨fun sid => start (M.cfg sid), []⟩

inductive Act
  /-- A connection on shard `self` has received a request. -/
  | issue (self : ℕ) (argv : List Bytes)
  /-- A request runs on its shard, up to its end or next suspension. -/
  | run (i now later : ℕ)
  /-- The call has returned. -/
  | finish (i : ℕ)
  /-- The result arrives at the connection, which writes the reply. -/
  | deliver (i : ℕ)

def Request.segment (cfg : Config) (now later : ℕ) (s : Store) (req : Request) :
    Option (Store × Pc) :=
  match req.phase with
  | .sent => begin cfg now s req.call
  | .running pc => resume cfg now later s req.call pc
  | _ => none

def Phase.finish : Phase → Option Phase
  | .running (.done r) => some (.returning r)
  | _ => none

def Phase.deliver : Phase → Option Phase
  | .returning r => some (.acked r)
  | _ => none

namespace Cluster

def run (M : Machine) (c : Cluster) (i now later : ℕ) : Option Cluster :=
  c.requests[i]?.bind fun req =>
    (req.segment (M.cfg req.target) now later (c.stores req.target)).map fun r =>
      ⟨Function.update c.stores req.target r.1, c.requests.set i { req with phase := .running r.2 }⟩

/-- A request moves on and no store changes. -/
def move (c : Cluster) (i : ℕ) (next : Phase → Option Phase) : Option Cluster :=
  c.requests[i]?.bind fun req =>
    (next req.phase).map fun φ => ⟨c.stores, c.requests.set i { req with phase := φ }⟩

def act (M : Machine) (c : Cluster) : Act → Option Cluster
  | .issue self argv =>
    match route argv with
    | some call => some ⟨c.stores, c.requests ++ [.issued M self call]⟩
    | none => some c
  | .run i now later => c.run M i now later
  | .finish i => c.move i Phase.finish
  | .deliver i => c.move i Phase.deliver

end Cluster

/-! ### Marks -/

/-- The read or write of the map in the next segment of request `i`. A read is in the first
segment, and a write in the one that begins with the entry. -/
def Request.effect (cfg : Config) (now : ℕ) (s : Store) (i : ℕ) (req : Request) :
    Option (Note ℕ Bytes Bytes) :=
  match req.phase, req.call with
  | .sent, .get k => some (.read i k now (s.get cfg k now).2)
  | .running (.acquired _), .set k v => some (.wrote i k v (deadline (abs s) k))
  | .running (.acquired _), .setWithTtl k v ttl => some (.wrote i k v (Store.due now ttl))
  | _, _ => none

/-- The keys of a list that are not in the map. -/
def missing (s : Store) (keys : List Bytes) : List Bytes :=
  keys.filter fun k => s.map.lookup k = none

/-- What a segment of request `i` from `s` to `s'` has done to the map. -/
def Request.notes (cfg : Config) (now : ℕ) (s s' : Store) (i : ℕ) (req : Request) :
    List (Note ℕ Bytes Bytes) :=
  let e := req.effect cfg now s i
  e.toList ++ (missing s' ((e.bind Note.written).toList ++ s.map.keys)).map .removed

structure Mark where
  shard : ℕ
  note : Note ℕ Bytes Bytes
  deriving DecidableEq

/-- The cluster and what has happened so far. -/
structure Observed extends Cluster where
  log : List Mark

namespace Observed

def fresh (M : Machine) : Observed := ⟨.fresh M, []⟩

/-- What an action that leads to `c` has done. -/
def marks (M : Machine) (o : Observed) (c : Cluster) : Act → List Mark
  | .run i now _ =>
    match o.requests[i]? with
    | some req =>
      (req.notes (M.cfg req.target) now (o.stores req.target) (c.stores req.target) i).map
        (Mark.mk req.target)
    | none => []
  | _ => []

def act (M : Machine) (o : Observed) (a : Act) : Option Observed :=
  (o.toCluster.act M a).map fun c => ⟨c, o.log ++ o.marks M c a⟩

def notes (o : Observed) : List (Note ℕ Bytes Bytes) := o.log.map Mark.note

end Observed

end ShunyaKV.Smp
