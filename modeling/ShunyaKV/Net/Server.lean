import ShunyaKV.Conn.Input
import ShunyaKV.Smp.Fresh

/-!
The whole server: connections on the shards, the calls of their requests, and the stores.

A connection hands its requests over as they come out of its input. A request that makes a
call is sent to the shard of its key, and its future has the reply when the result is back; any
other is answered by its own shard. Connections, shards and messages take their steps in any
order.
-/

namespace ShunyaKV.Net

open ShunyaKV.Lib ShunyaKV.Lib.Decimal ShunyaKV.Lib.Ttl ShunyaKV.Shard ShunyaKV.Hash
  ShunyaKV.Resp ShunyaKV.Cmd ShunyaKV.Conn ShunyaKV.Smp

/-- The reply to the request of a call that is over. -/
def encode : Reply → Bytes
  | .stored true => writeSimple (ascii "OK")
  | .stored false => writeError (ascii "NOT STORED")
  | .found (some val) => writeBulk val
  | .found none => writeNull
  | .threw e => replyOf (.error (what e))

structure Host extends Machine where
  nodeCfg : NodeCfg
  /-- `g_send_shard_details_on_connect` -/
  sendShardDetails : Bool

/-- What a handler finds on shard `self`; the statistics are those of the moment. -/
def Host.server (H : Host) (self : ℕ) (info : Bytes) : Server where
  cfg := H.cfg self
  nodeCfg := H.nodeCfg
  smp := H.smp
  firstDataShard := H.firstDataShard
  shardId := self
  fetchInfo _ := info
  fetchJsonInfo _ := info

def Host.shardDetails (H : Host) (self : ℕ) : Bytes :=
  let json := computeHash H.nodeCfg (self % 2 ^ 16)
  ascii "$" ++ decimal json.length ++ ascii "\r\n" ++ json ++ ascii "\r\n"

inductive Stage
  | greeting
  /-- in the two loops -/
  | serving
  /-- past them, after an exception of `send_shard_details` -/
  | failed
  deriving DecidableEq

/-- A connection of shard `self`, with the number of the call for each request it has handed
over that makes one. -/
structure Link where
  self : ℕ
  stage : Stage
  greeting : Bytes := []
  sock : Socket Processor := { handler := {} }
  calls : List (Option ℕ) := []

def Link.accepted (H : Host) (self : ℕ) : Link where
  self := self
  stage := if H.sendShardDetails then .greeting else .serving

/-- `send_shard_details` is done, or has thrown. -/
def Link.greet (H : Host) (link : Link) (ok : Bool) : Option Link :=
  match link.stage, ok with
  | .greeting, true => some { link with stage := .serving, greeting := H.shardDetails link.self }
  | .greeting, false => some { link with stage := .failed }
  | _, _ => none

/-- The request that an action hands to `handle_request`. -/
def Link.handing (link : Link) (a : Conn.Action) : Option ParsedRequest :=
  match a, link.sock.reader with
  | .readOn, .granted req => some req
  | _, _ => none

structure Process where
  cluster : Observed
  links : List Link

def Process.fresh (H : Host) : Process := ⟨.fresh H.toMachine, []⟩

inductive Event
  /-- shard `self` accepts a connection -/
  | connect (self : ℕ)
  | greet (i : ℕ) (ok : Bool)
  /-- a step of one of the loops of connection `i` -/
  | loops (i : ℕ) (a : Conn.Action)
  /-- call `j` runs on its shard, up to its end or next suspension -/
  | run (j now later : ℕ)
  | finish (j : ℕ)
  /-- the result is back at connection `i`, and the future of its request `n` has the reply -/
  | deliver (i n : ℕ)
  /-- the shard of connection `i` answers its request `n` by itself -/
  | answer (i n : ℕ) (info : Bytes)

/-- Whether an action is one of the loops, and not one of `handle_request`. -/
def ofLoops : Conn.Action → Bool
  | .resolve _ _ => false
  | _ => true

namespace Process

variable (H : Host) (P : Process)

def setLink (i : ℕ) (link : Link) : Process := { P with links := P.links.set i link }

/-- A step of a loop of a connection; a request that it hands over makes its call. -/
def loops (i : ℕ) (link : Link) (a : Conn.Action) : Option Process :=
  (link.sock.act respHandler a).bind fun sock =>
    match link.handing a with
    | none => some (P.setLink i { link with sock := sock })
    | some req =>
      let call := (route req.argv).map fun _ => P.cluster.requests.length
      (P.cluster.act H.toMachine (.issue link.self req.argv)).map fun cluster =>
        { P with cluster := cluster }.setLink i
          { link with sock := sock, calls := link.calls ++ [call] }

def resolve (i n : ℕ) (link : Link) (resp : Bytes) : Option Process :=
  (link.sock.act respHandler (.resolve n (.value resp))).map fun sock =>
    P.setLink i { link with sock := sock }

def deliver (i n : ℕ) (link : Link) (j : ℕ) : Option Process :=
  (P.cluster.act H.toMachine (.deliver j)).bind fun cluster =>
    (cluster.requests[j]?.bind Request.result).bind fun r =>
      { P with cluster := cluster }.resolve i n link (encode r)

def act : Event → Option Process
  | .connect self => some { P with links := P.links ++ [.accepted H self] }
  | .greet i ok => P.links[i]?.bind fun link => (link.greet H ok).map (P.setLink i)
  | .loops i a =>
    P.links[i]?.bind fun link =>
      if link.stage = .serving ∧ ofLoops a then P.loops H i link a else none
  | .run j now later =>
    (P.cluster.act H.toMachine (.run j now later)).map fun cluster => { P with cluster := cluster }
  | .finish j =>
    (P.cluster.act H.toMachine (.finish j)).map fun cluster => { P with cluster := cluster }
  | .deliver i n =>
    P.links[i]?.bind fun link => link.calls[n]?.join.bind fun j => P.deliver H i n link j
  | .answer i n info =>
    P.links[i]?.bind fun link =>
      if link.calls[n]? = some none then
        link.sock.handed[n]?.bind fun req =>
          let node : Node := fun sid => { store := P.cluster.stores sid }
          P.resolve i n link (handleRequest (H.server link.self info) ⟨0, 0⟩ node req).2
      else none

end Process

def Event.input (i : ℕ) : Event → Bytes
  | .loops i' a => if i' = i then a.input else []
  | _ => []

def sentTo (i : ℕ) (events : List Event) : Bytes := events.flatMap (Event.input i)

end ShunyaKV.Net
