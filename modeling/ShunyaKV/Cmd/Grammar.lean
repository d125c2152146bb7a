import ShunyaKV.Cmd.Replies
import ShunyaKV.Shard.Throws
import ShunyaKV.Shard.Pipeline

/-!
What a request does to the services.

A request is at most one call of the store of one shard. One that is answered with an error is
none, and a `SET` is carried out exactly when it is `SET key value` or `SET key value EX ttl`,
unless the store throws.
-/

namespace ShunyaKV.Cmd

open ShunyaKV.Lib.Decimal ShunyaKV.Shard ShunyaKV.Hash ShunyaKV.Resp

/-! ### The call of a request -/

def SetArgs.call (args : SetArgs) : Call :=
  if args.ttl = 0 then .set args.key args.value else .setWithTtl args.key args.value args.ttl

@[simp] lemma SetArgs.key_call (args : SetArgs) : args.call.key = args.key := by
  unfold SetArgs.call
  split <;> rfl

/-- The call of a store that a request makes, if it makes one. -/
def route (argv : List Bytes) : Option Call :=
  match argv with
  | [] => none
  | name :: args =>
    if asciiIeq name (ascii "SET") then
      match checkSet argv with
      | .ok args => some args.call
      | .error _ => none
    else if asciiIeq name (ascii "GET") then
      match args with
      | [key] => if key = [] then none else some (.get key)
      | _ => none
    else none

lemma route_eq_some {argv : List Bytes} {call : Call} (h : route argv = some call) :
    (∃ name rest args, argv = name :: rest ∧ asciiIeq name (ascii "SET") ∧
      checkSet argv = .ok args ∧ call = args.call) ∨
    ∃ name key, argv = [name, key] ∧ asciiIeq name (ascii "GET") ∧ key ≠ [] ∧ call = .get key := by
  unfold route at h
  split at h
  · cases h
  · next name rest =>
    split at h
    · next hset =>
      rcases hc : checkSet (name :: rest) with msg | args <;> rw [hc] at h <;> cases h
      exact .inl ⟨name, rest, args, rfl, hset, rfl, rfl⟩
    · split at h
      · next hget =>
        split at h
        · next key =>
          split at h <;> cases h
          next hkey => exact .inr ⟨name, key, rfl, hget, hkey, rfl⟩
        · cases h
      · cases h

/-- The services after a call, which is run by the shard of its key. -/
def applied (srv : Server) (t : Clock) (call : Call) (node : Node) : Node :=
  let sid := shardFor srv.smp srv.firstDataShard call.key
  Function.update node sid
    { node sid with store := (step srv.cfg (node sid).store ⟨call, t.now, t.later⟩).1 }

section Handlers

variable (srv : Server) (t : Clock) (node : Node)

lemma find?_set {name : Bytes} (h : asciiIeq name (ascii "SET")) :
    (commandDispatch.find? fun entry => asciiIeq name entry.1) =
      some (ascii "SET", handleSet) := by
  simp only [commandDispatch, List.find?_cons, h]

lemma find?_get {name : Bytes} (h : asciiIeq name (ascii "GET")) :
    (commandDispatch.find? fun entry => asciiIeq name entry.1) =
      some (ascii "GET", handleGet) := by
  have h1 := asciiIeq_eq_false (b := ascii "SET") h (by decide)
  simp only [commandDispatch, List.find?_cons, h1, h]

lemma setKeyValue_fst (svc : Service) (args : SetArgs) :
    (svc.setKeyValue srv.cfg t args.key args.value args.ttl).1 =
      { svc with store := (step srv.cfg svc.store ⟨args.call, t.now, t.later⟩).1 } := by
  unfold Service.setKeyValue SetArgs.call
  split <;> rfl

lemma setKeyValue_snd (svc : Service) (args : SetArgs) :
    svc.store.PutThrows srv.cfg args.key ∧
        (∃ e, (svc.setKeyValue srv.cfg t args.key args.value args.ttl).2 = .error e) ∨
      ¬ svc.store.PutThrows srv.cfg args.key ∧
        (svc.setKeyValue srv.cfg t args.key args.value args.ttl).2 = .ok true := by
  have hput (d : Option ℕ) : svc.store.PutThrows srv.cfg args.key ∧
        (∃ e, (svc.store.put srv.cfg args.key args.value d t.later).2 = .error e) ∨
      ¬ svc.store.PutThrows srv.cfg args.key ∧
        (svc.store.put srv.cfg args.key args.value d t.later).2 = .ok true := by
    rw [put_throws_iff (v := args.value) (d := d) t.later]
    have hstored := put_ne_false srv.cfg svc.store args.key args.value d t.later
    revert hstored
    rcases (svc.store.put srv.cfg args.key args.value d t.later).2 with e | _ | _ <;> intro hstored
    · exact .inl ⟨⟨e, rfl⟩, e, rfl⟩
    · exact absurd rfl hstored
    · exact .inr ⟨by simp, rfl⟩
  unfold Service.setKeyValue
  split
  · exact hput none
  · exact hput _

/-- A `SET` that passes its checks writes to the shard of its key. It is acknowledged unless the
store throws. -/
lemma handleSet_ok {cmd : List Bytes} {args : SetArgs} (h : checkSet cmd = .ok args) :
    (handleSet srv t node cmd).1 = applied srv t args.call node ∧
      ((node (shardFor srv.smp srv.firstDataShard args.key)).store.PutThrows srv.cfg args.key ∧
          (∃ e, (handleSet srv t node cmd).2 = .error (what e)) ∨
        ¬ (node (shardFor srv.smp srv.firstDataShard args.key)).store.PutThrows srv.cfg args.key ∧
          (handleSet srv t node cmd).2 = .ok (writeSimple (ascii "OK"))) := by
  simp only [handleSet, h, applied, SetArgs.key_call, setKeyValue_fst srv t, true_and]
  rcases setKeyValue_snd srv t (node (shardFor srv.smp srv.firstDataShard args.key)) args with
    ⟨hthrows, e, he⟩ | ⟨hthrows, hok⟩
  · exact .inl ⟨hthrows, e, by rw [he]⟩
  · exact .inr ⟨hthrows, by rw [hok]⟩

lemma handleGet_key (name : Bytes) {key : Bytes} (h : key ≠ []) :
    (replyOf (handleGet srv t node [name, key]).2).head? = some 36 := by
  simp only [handleGet, if_neg h]
  split <;> rfl

lemma handleInfo_node (cmd : List Bytes) : (handleInfo srv t node cmd).1 = node := by
  unfold handleInfo
  repeat' split
  all_goals rfl

lemma handleNodeInfo_node (cmd : List Bytes) : (handleNodeInfo srv t node cmd).1 = node := by
  unfold handleNodeInfo
  repeat' split
  all_goals rfl

lemma handler_node {entry : Bytes × Handler} (hmem : entry ∈ commandDispatch)
    (hset : entry.1 ≠ ascii "SET") (hget : entry.1 ≠ ascii "GET") (cmd : List Bytes) :
    (entry.2 srv t node cmd).1 = node := by
  simp only [commandDispatch, List.mem_cons, List.not_mem_nil, or_false] at hmem
  rcases hmem with rfl | rfl | rfl | rfl | rfl
  · exact absurd rfl hset
  · exact absurd rfl hget
  · rfl
  · exact handleNodeInfo_node srv t node cmd
  · exact handleInfo_node srv t node cmd

lemma handleGet_node (name : Bytes) {args : List Bytes}
    (h : ∀ key, args = [key] → key = []) :
    (handleGet srv t node (name :: args)).1 = node := by
  unfold handleGet
  split
  · next key heq => rw [if_pos (h key (List.cons.inj heq).2)]
  · rfl

end Handlers

/-! ### Requests -/

section Requests

variable (srv : Server) (t : Clock) (node : Node) {req : ParsedRequest}

lemma handleRequest_of_find? {name cmd : Bytes} {args : List Bytes} {handler : Handler}
    (hargv : req.argv = name :: args)
    (hfind : (commandDispatch.find? fun entry => asciiIeq name entry.1) = some (cmd, handler)) :
    handleRequest srv t node req = ((handler srv t node (name :: args)).1,
      replyOf (handler srv t node (name :: args)).2) := by
  simp only [handleRequest, hargv, hfind]

lemma writeSimple_ok : writeSimple (ascii "OK") = ascii "+OK\r\n" := by decide

lemma handleRequest_checkSet_ok {name : Bytes} {args : List Bytes} {sargs : SetArgs}
    (hargv : req.argv = name :: args) (hset : asciiIeq name (ascii "SET"))
    (hc : checkSet req.argv = .ok sargs) :
    (handleRequest srv t node req).1 = applied srv t sargs.call node ∧
      ((node (shardFor srv.smp srv.firstDataShard sargs.key)).store.PutThrows srv.cfg sargs.key ∧
          (∃ e, (handleRequest srv t node req).2 = writeError (ascii "ERR " ++ what e)) ∨
        ¬ (node (shardFor srv.smp srv.firstDataShard sargs.key)).store.PutThrows srv.cfg sargs.key ∧
          (handleRequest srv t node req).2 = ascii "+OK\r\n") := by
  rw [hargv] at hc
  rw [handleRequest_of_find? srv t node hargv (find?_set hset)]
  obtain ⟨hnode, ⟨hthrows, e, he⟩ | ⟨hthrows, hok⟩⟩ := handleSet_ok srv t node hc
  · exact ⟨hnode, .inl ⟨hthrows, e, by rw [he, replyOf_what]⟩⟩
  · exact ⟨hnode, .inr ⟨hthrows, by rw [hok, ← writeSimple_ok]; rfl⟩⟩

lemma handleSet_error {cmd : List Bytes} {msg : String} (h : checkSet cmd = .error msg) :
    handleSet srv t node cmd = (node, .ok (writeError (ascii msg))) := by
  simp only [handleSet, h]

/-- **A request without a call** leaves the services as they are. -/
lemma handleRequest_none (h : route req.argv = none) : (handleRequest srv t node req).1 = node := by
  rcases hargv : req.argv with _ | ⟨name, args⟩ <;> rw [hargv] at h
  · simp only [handleRequest, hargv]
    split <;> rfl
  · simp only [route] at h
    split at h
    · next hset =>
      rcases hc : checkSet (name :: args) with msg | sargs <;> rw [hc] at h <;> cases h
      rw [handleRequest_of_find? srv t node hargv (find?_set hset), handleSet_error srv t node hc]
    · next hset =>
      split at h
      · next hget =>
        have hargs (key : Bytes) (e : args = [key]) : key = [] := by
          subst e
          by_contra hkey
          simp [hkey] at h
        rw [handleRequest_of_find? srv t node hargv (find?_get hget)]
        exact handleGet_node srv t node name hargs
      · next hget =>
        rcases hfind : commandDispatch.find? fun entry => asciiIeq name entry.1 with _ | ⟨cmd, _⟩
        · simp only [handleRequest, hargv, hfind]
        · have hname := List.find?_some hfind
          dsimp only at hname
          have hne (cmd' : Bytes) (hcmd : ¬ asciiIeq name cmd') : cmd ≠ cmd' :=
            fun e => hcmd (e ▸ hname)
          rw [handleRequest_of_find? srv t node hargv hfind]
          exact handler_node srv t node (List.mem_of_find?_eq_some hfind) (hne _ hset)
            (hne _ hget) _

lemma handleRequest_checkSet_error {name : Bytes} {args : List Bytes} {msg : String}
    (hargv : req.argv = name :: args) (hset : asciiIeq name (ascii "SET"))
    (hc : checkSet req.argv = .error msg) :
    (handleRequest srv t node req).2 = writeError (ascii msg) := by
  rw [hargv] at hc
  rw [handleRequest_of_find? srv t node hargv (find?_set hset), handleSet_error srv t node hc]
  rfl

end Requests

/-! ### The grammar of `SET` -/

/-- `SET key value` and `SET key value EX ttl`: the key is not empty and `ttl` is a decimal
number from 1 to the largest of 64 bits. -/
inductive SetGrammar : List Bytes → SetArgs → Prop
  | plain (name val : Bytes) {key : Bytes} (hkey : key ≠ []) :
    SetGrammar [name, key, val] ⟨key, val, 0⟩
  | expiring (name val : Bytes) {key ex ttl : Bytes} (hkey : key ≠ [])
    (hex : asciiIeq ex (ascii "EX")) (hdigits : ∀ b ∈ ttl, IsDigit b)
    (hpos : 1 ≤ value 0 ttl) (hmax : value 0 ttl ≤ 2 ^ 64 - 1) :
    SetGrammar [name, key, val, ex, ttl] ⟨key, val, value 0 ttl⟩

/-- The checks of `handle_set` are the grammar. -/
lemma checkSet_eq_ok_iff {cmd : List Bytes} {args : SetArgs} :
    checkSet cmd = .ok args ↔ SetGrammar cmd args := by
  constructor
  · intro h
    unfold checkSet at h
    split at h
    · next name key val opts =>
      split at h
      · cases h
      · next hkey =>
        split at h
        · cases h
          exact .plain name val hkey
        · next ex ttl =>
          split at h
          · cases h
          · next hex =>
            split at h
            · next n hn =>
              obtain ⟨-, hd, hmax, rfl⟩ := fromChars_eq_some_iff.mp hn
              split at h
              · cases h
              · next hpos =>
                cases h
                exact .expiring name val hkey (by simpa using hex) hd
                  (Nat.one_le_iff_ne_zero.mpr hpos) hmax
            · cases h
        · cases h
    · cases h
  · rintro (⟨name, val, hkey⟩ | ⟨name, val, hkey, hex, hd, hpos, hmax⟩)
    · simp only [checkSet, if_neg hkey]
    · next key ex ttl =>
      have hne : ttl ≠ [] := by
        rintro rfl
        exact absurd hpos (by decide)
      have hn : fromChars (2 ^ 64 - 1) ttl = some (value 0 ttl, []) :=
        fromChars_eq_some_iff.mpr ⟨hne, hd, hmax, rfl⟩
      simp only [checkSet, if_neg hkey, hex, Bool.not_true, Bool.false_eq_true, if_false, hn,
        if_neg (Nat.one_le_iff_ne_zero.mp hpos)]

/-- A request that is answered with an error changes nothing, and a `SET` is carried out, with
the reply `+OK`, exactly if its arguments are in the grammar. Otherwise it is answered with an
error. -/
structure Honored (srv : Server) (t : Clock) (node : Node) (req : ParsedRequest) : Prop where
  untouched : (handleRequest srv t node req).2.head? = some 45 →
    (handleRequest srv t node req).1 = node
  set : ∀ name rest, req.argv = name :: rest → asciiIeq name (ascii "SET") →
    ((handleRequest srv t node req).2 = ascii "+OK\r\n" ↔ ∃ args, SetGrammar req.argv args) ∧
    (∀ args, SetGrammar req.argv args →
      (handleRequest srv t node req).1 = applied srv t args.call node) ∧
    ((¬ ∃ args, SetGrammar req.argv args) → (handleRequest srv t node req).2.head? = some 45)

/-- The request is a `SET` in the grammar, and the store of its key throws. -/
def SetThrows (srv : Server) (node : Node) (argv : List Bytes) : Prop :=
  ∃ name rest args, argv = name :: rest ∧ asciiIeq name (ascii "SET") ∧ SetGrammar argv args ∧
    (node (shardFor srv.smp srv.firstDataShard args.key)).store.PutThrows srv.cfg args.key

/-- **An error changes nothing, and `SET` accepts its grammar, unless the store throws.** -/
theorem honored_iff_not_throws (srv : Server) (t : Clock) (node : Node) (req : ParsedRequest) :
    Honored srv t node req ↔ ¬ SetThrows srv node req.argv := by
  constructor
  · rintro h ⟨name, rest, args, hargv, hset, hg, hthrows⟩
    have hok := (h.set name rest hargv hset).1.mpr ⟨args, hg⟩
    obtain ⟨-, ⟨-, e, he⟩ | ⟨hno, -⟩⟩ :=
      handleRequest_checkSet_ok srv t node hargv hset (checkSet_eq_ok_iff.mpr hg)
    · rw [he] at hok
      cases e <;> exact absurd hok (by decide)
    · exact hno hthrows
  · intro hno
    have hok {name : Bytes} {rest : List Bytes} {args : SetArgs} (hargv : req.argv = name :: rest)
        (hset : asciiIeq name (ascii "SET")) (hg : SetGrammar req.argv args) :
        (handleRequest srv t node req).1 = applied srv t args.call node ∧
          (handleRequest srv t node req).2 = ascii "+OK\r\n" := by
      obtain ⟨hnode, ⟨hthrows, -⟩ | ⟨-, hreply⟩⟩ :=
        handleRequest_checkSet_ok srv t node hargv hset (checkSet_eq_ok_iff.mpr hg)
      · exact absurd ⟨name, rest, args, hargv, hset, hg, hthrows⟩ hno
      · exact ⟨hnode, hreply⟩
    constructor
    · intro herr
      rcases hroute : route req.argv with _ | call
      · exact handleRequest_none srv t node hroute
      · rcases route_eq_some hroute with
          ⟨name, rest, args, hargv, hset, hc, -⟩ | ⟨name, key, hargv, hget, hkey, -⟩
        · rw [(hok hargv hset (checkSet_eq_ok_iff.mp hc)).2] at herr
          exact absurd herr (by decide)
        · have hbulk := handleGet_key srv t node name hkey
          rw [handleRequest_of_find? srv t node hargv (find?_get hget), hbulk] at herr
          exact absurd herr (by decide)
    · intro name rest hargv hset
      have hrejected (h : ¬ ∃ args, SetGrammar req.argv args) :
          (handleRequest srv t node req).2.head? = some 45 := by
        rcases hc : checkSet req.argv with msg | args
        · rw [handleRequest_checkSet_error srv t node hargv hset hc]
          rfl
        · exact absurd ⟨args, checkSet_eq_ok_iff.mp hc⟩ h
      refine ⟨⟨fun hreply => ?_, fun ⟨_, h⟩ => (hok hargv hset h).2⟩,
        fun _ h => (hok hargv hset h).1, hrejected⟩
      by_contra hnone
      have hhead := hrejected hnone
      rw [hreply] at hhead
      exact absurd hhead (by decide)

/-- The largest time to live is accepted, and one more is not. -/
example :
    (onEmpty [ascii "set", [1], [2], ascii "ex", ascii "18446744073709551615"]).reply oneShard =
        ascii "+OK\r\n" ∧
      (onEmpty [ascii "set", [1], [2], ascii "ex", ascii "18446744073709551616"]).reply oneShard =
        ascii "-ERR invalid expire time\r\n" := by
  decide +kernel

/-- One shard, with a pass after every write and room for more victims than there can be. -/
def vastPass : Server :=
  { oneShard with
    cfg := { maxSize := 4, probPoolMaxSize := 2, probThreshold := 2, reaperBudget := 1
             softBudget := 2 ^ 59, softTriggered := fun used => 1 ≤ used } }

/-- A `SET` of a new store is answered with an error and has stored its value. -/
theorem not_honored_vast :
    (handleRequest vastPass ⟨0, 0⟩ emptyNode (onEmpty [ascii "SET", [1], [2]]).req).2 =
        ascii "-ERR vector::reserve\r\n" ∧
      (((handleRequest vastPass ⟨0, 0⟩ emptyNode
        (onEmpty [ascii "SET", [1], [2]]).req).1 0).store.get vastPass.cfg [1] 0).2 = some [2] ∧
      ¬ Honored vastPass ⟨0, 0⟩ emptyNode (onEmpty [ascii "SET", [1], [2]]).req := by
  refine ⟨by decide +kernel, by decide +kernel, fun h => ?_⟩
  have hok := (h.set _ _ rfl (by decide)).1.mpr ⟨_, .plain (ascii "SET") [2] (by decide)⟩
  exact absurd hok (by decide +kernel)

end ShunyaKV.Cmd
