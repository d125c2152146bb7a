import ShunyaKV.Hash.Ranges
import ShunyaKV.Resp.Extract
import ShunyaKV.Shard.Ops

/-!
The commands: what each handler writes and does to the stores, and the reply to a request.

A key is served by the store of its shard, here or through a message to that shard. A
handler gives the bytes it has written, or the text of the exception it throws, which may be
one of the store.
-/

namespace ShunyaKV.Cmd

open ShunyaKV.Lib.Decimal ShunyaKV.Shard ShunyaKV.Hash ShunyaKV.Resp

structure RequestCounters where
  getTotal : ℕ := 0
  getForwarded : ℕ := 0
  deriving DecidableEq, Repr

structure Service where
  store : Store
  cacheMiss : ℕ := 0
  reqs : RequestCounters := {}

abbrev Node := ℕ → Service

/-- What a handler finds: the configuration, the number of shards and its own shard. -/
structure Server where
  cfg : Config
  nodeCfg : NodeCfg
  /-- `seastar::smp::count` -/
  smp : ℕ
  /-- `g_first_data_shard` -/
  firstDataShard : ℕ
  /-- `this_shard_id()` -/
  shardId : ℕ
  /-- The statistics, as text and as JSON. -/
  fetchInfo : Node → Bytes
  fetchJsonInfo : Node → Bytes

/-- The clock when a command reads or writes its key, and at the eviction pass of a write. -/
structure Clock where
  now : ℕ
  later : ℕ

/-- The services after a handler, and what it has written or the text of its exception. -/
abbrev Outcome := Node × Except Bytes Bytes

abbrev Handler := Server → Clock → Node → List Bytes → Outcome

def toUpper (b : UInt8) : UInt8 := if 97 ≤ b.toNat ∧ b.toNat ≤ 122 then b - 32 else b

/-- Equality of ASCII texts up to case; `ascii_ieq` and the three copies of `ieq`. -/
def asciiIeq (a b : Bytes) : Bool := a.length = b.length ∧ a.map toUpper = b.map toUpper

/-- `std::from_chars` on an unsigned type: the number at the front of a text and what comes
after it, or no number, or one too large. -/
def fromChars (max : ℕ) (s : Bytes) : Option (ℕ × Bytes) :=
  let ds := s.takeWhile (IsDigit ·)
  if ds = [] then none
  else if max < value 0 ds then none
  else some (value 0 ds, s.dropWhile (IsDigit ·))

/-- `from_chars` takes a text to its end exactly if it is a number in range. -/
lemma fromChars_eq_some_iff {max n : ℕ} {s : Bytes} :
    fromChars max s = some (n, []) ↔
      s ≠ [] ∧ (∀ b ∈ s, IsDigit b) ∧ value 0 s ≤ max ∧ n = value 0 s := by
  have hall : s.dropWhile (IsDigit ·) = [] ↔ ∀ b ∈ s, IsDigit b := by
    simp [List.dropWhile_eq_nil_iff]
  have hself (h : ∀ b ∈ s, IsDigit b) : s.takeWhile (IsDigit ·) = s :=
    List.takeWhile_eq_self_iff.mpr fun b hb => decide_eq_true (h b hb)
  unfold fromChars
  constructor
  · intro h
    dsimp only at h
    split at h
    · cases h
    · next hne =>
      split at h
      · cases h
      · next hmax =>
        obtain ⟨hn, hrest⟩ := Prod.mk.inj (Option.some.inj h)
        have hd := hall.mp hrest
        rw [hself hd] at hne hmax hn
        exact ⟨hne, hd, Nat.le_of_not_lt hmax, hn.symm⟩
  · rintro ⟨hne, hd, hmax, rfl⟩
    simp only [hself hd, if_neg hne, if_neg (Nat.not_lt.mpr hmax), hall.mpr hd]

def what : LengthError → Bytes
  | .vector => ascii "vector::reserve"
  | .string => ascii "basic_string::_M_create"

/-- The message of `local_set` and `set_key_value` to the service of a shard. -/
def Service.setKeyValue (cfg : Config) (t : Clock) (svc : Service) (key value : Bytes) (ttl : ℕ) :
    Service × Except LengthError Bool :=
  let r := if ttl = 0 then svc.store.set cfg key value t.later
    else svc.store.setWithTtl cfg key value ttl t.now t.later
  ({ svc with store := r.1 }, r.2)

def Service.getKeyValue (cfg : Config) (t : Clock) (svc : Service) (key : Bytes) :
    Service × Option Bytes :=
  let r := svc.store.get cfg key t.now
  ({ svc with store := r.1 }, r.2)

def Service.recordGet (svc : Service) (forwarded : Bool) : Service :=
  { svc with reqs :=
      { getTotal := svc.reqs.getTotal + 1
        getForwarded := svc.reqs.getForwarded + if forwarded then 1 else 0 } }

def Service.recordCacheMissCount (svc : Service) : Service :=
  { svc with cacheMiss := svc.cacheMiss + 1 }

structure SetArgs where
  key : Bytes
  value : Bytes
  ttl : ℕ
  deriving DecidableEq, Repr

/-- The checks of `handle_set`, in order, or the message of the one that fails. -/
def checkSet (cmd : List Bytes) : Except String SetArgs :=
  match cmd with
  | _ :: key :: value :: opts =>
    if key = [] then .error "ERR empty key"
    else
      match opts with
      | [] => .ok ⟨key, value, 0⟩
      | [ex, ttl] =>
        if !asciiIeq ex (ascii "EX") then .error "ERR syntax error (expected EX)"
        else
          match fromChars (2 ^ 64 - 1) ttl with
          | some (n, []) => if n = 0 then .error "ERR invalid expire time" else .ok ⟨key, value, n⟩
          | _ => .error "ERR invalid expire time"
      | _ => .error "ERR syntax error"
  | _ => .error "ERR wrong number of arguments for 'SET'"

def handleSet : Handler := fun srv t node cmd =>
  match checkSet cmd with
  | .error msg => (node, .ok (writeError (ascii msg)))
  | .ok args =>
    let sid := shardFor srv.smp srv.firstDataShard args.key
    let r := (node sid).setKeyValue srv.cfg t args.key args.value args.ttl
    (Function.update node sid r.1,
      match r.2 with
      | .ok true => .ok (writeSimple (ascii "OK"))
      | .ok false => .ok (writeError (ascii "NOT STORED"))
      | .error e => .error (what e))

def handleGet : Handler := fun srv t node cmd =>
  match cmd with
  | [_, key] =>
    if key = [] then (node, .ok (writeError (ascii "ERR empty key")))
    else
      let sid := shardFor srv.smp srv.firstDataShard key
      let self := srv.shardId
      let node := Function.update node self ((node self).recordGet (sid ≠ self))
      let r := (node sid).getKeyValue srv.cfg t key
      let node := Function.update node sid r.1
      match r.2 with
      | some val => (node, .ok (writeBulk val))
      | none => (Function.update node self (node self).recordCacheMissCount, .ok writeNull)
  | _ => (node, .ok (writeError (ascii "ERR wrong number of arguments for 'GET'")))

def handleQuit : Handler := fun _ _ node _ => (node, .ok (writeSimple (ascii "BYE")))

def invalidShardId (s : Bytes) : Bytes := ascii "invalid shard id: " ++ s

def parseU16 (s : Bytes) : Except Bytes ℕ :=
  if s = [] then .error (invalidShardId (ascii "empty"))
  else if s.any (¬ IsDigit ·) then .error (invalidShardId s)
  else
    match fromChars (2 ^ 32 - 1) s with
    | some (out, []) => if 2 ^ 16 - 1 < out then .error (invalidShardId s) else .ok out
    | _ => .error (invalidShardId s)

def handleNodeInfo : Handler := fun srv _ node cmd =>
  match cmd with
  | [_] => (node, .ok (writeBulk (computeHash srv.nodeCfg (srv.shardId % 2 ^ 16))))
  | [_, arg] =>
    if asciiIeq arg (ascii "RANGES") || asciiIeq arg (ascii "MAP") then
      (node, .ok (writeBulk (computeHashRanges srv.nodeCfg)))
    else if asciiIeq arg (ascii "SHARDS") then (node, .ok (writeBulk (getSmpCount srv.nodeCfg)))
    else
      (node, do
        let shardNo ← parseU16 arg
        return writeBulk (computeHash srv.nodeCfg shardNo))
  | _ => (node, .ok (writeError (ascii "ERR wrong number of arguments for 'NODE_INFO'")))

def handleInfo : Handler := fun srv _ node cmd =>
  if 2 < cmd.length then
    (node, .ok (writeError (ascii "ERR wrong number of arguements for 'INFO'")))
  else
    match cmd with
    | [_, arg] =>
      if !asciiIeq arg (ascii "JSON") then
        (node, .ok (writeError (ascii "Invalid sub arg for 'INFO'")))
      else (node, .ok (writeBulk (srv.fetchJsonInfo node)))
    | _ => (node, .ok (writeBulk (srv.fetchInfo node)))

def commandDispatch : List (Bytes × Handler) :=
  [(ascii "SET", handleSet), (ascii "GET", handleGet), (ascii "QUIT", handleQuit),
    (ascii "NODE_INFO", handleNodeInfo), (ascii "INFO", handleInfo)]

/-- What a handler has written, or its exception. `what()` is a C string. -/
def replyOf : Except Bytes Bytes → Bytes
  | .ok reply => reply
  | .error what => ascii "-ERR " ++ what.takeWhile (· ≠ 0) ++ writeCrlf

def handleRequest (srv : Server) (t : Clock) (node : Node) (req : ParsedRequest) : Node × Bytes :=
  match req.argv with
  | [] =>
    if req.frame.head? = some 45 then (node, req.frame)
    else (node, ascii "-ERR empty command\r\n")
  | name :: _ =>
    match commandDispatch.find? fun entry => asciiIeq name entry.1 with
    | none => (node, ascii "-ERR unknown command\r\n")
    | some entry =>
      let r := entry.2 srv t node req.argv
      (r.1, replyOf r.2)

end ShunyaKV.Cmd
