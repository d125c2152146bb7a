import ShunyaKV.Cmd.Handlers
import ShunyaKV.Resp.Calls

/-!
Replies are well formed, so that a client can tell them apart, except for the one that
echoes an argument of `NODE_INFO` with a line break in it.
-/

namespace ShunyaKV.Cmd

open ShunyaKV.Lib.Decimal ShunyaKV.Lib.Words ShunyaKV.Shard ShunyaKV.Hash ShunyaKV.Resp

def OneLine (body : Bytes) : Prop := 13 ∉ body ∧ 10 ∉ body

instance (body : Bytes) : Decidable (OneLine body) := inferInstanceAs (Decidable (_ ∧ _))

/-- Exactly one RESP reply: a status or error line, a bulk string or the null bulk string. -/
inductive IsReply : Bytes → Prop
  | line {mark : UInt8} {body : Bytes} (hmark : mark = 43 ∨ mark = 45) (hbody : OneLine body) :
    IsReply (mark :: body ++ [13, 10])
  | bulk (body : Bytes) :
    IsReply (36 :: decimal body.length ++ [13, 10] ++ body ++ [13, 10])
  | null : IsReply [36, 45, 49, 13, 10]

/-! ### Replies split uniquely -/

lemma IsReply.mark_ne {mark : UInt8} (h : mark = 43 ∨ mark = 45) : mark ≠ 36 := by
  rcases h with rfl | rfl <;> decide

/-- No reply is the beginning of another: the first byte tells the kind, and a line or a
length ends at its first CR. -/
lemma prefixFree_isReply : PrefixFree IsReply where
  ne_nil h := by cases h <;> simp
  eq {u v x y} hu hv h := by
    have h13 (n : ℕ) : (13 : UInt8) ∉ decimal n := not_mem_decimal (by decide)
    have h45 (n : ℕ) : decimal n ≠ [45, 49] := fun e =>
      not_mem_decimal (n := n) (b := 45) (by decide) (by simp [e])
    cases hu with
    | line hmark hbody =>
      have hne := IsReply.mark_ne hmark
      cases hv with
      | line hmark' hbody' =>
        simp only [List.cons_append, List.append_assoc, List.cons.injEq] at h
        rw [h.1, line_unique hbody.1 hbody'.1 h.2]
      | bulk => simp [hne] at h
      | null => simp [hne] at h
    | bulk body =>
      cases hv with
      | line hmark' => simp [(IsReply.mark_ne hmark').symm] at h
      | bulk body' =>
        simp only [List.cons_append, List.append_assoc, List.cons.injEq, true_and] at h
        have hd := line_unique (h13 _) (h13 _) h
        have hlen := decimal_injective hd
        rw [hd] at h
        simp only [List.append_cancel_left_eq, List.nil_append, List.cons.injEq, true_and] at h
        rw [(List.append_inj h hlen).1]
      | null =>
        simp only [List.cons_append, List.append_assoc, List.cons.injEq, true_and] at h
        exact absurd (line_unique (v := [45, 49]) (h13 _) (by decide) h) (h45 _)
    | null =>
      cases hv with
      | line hmark' => simp [(IsReply.mark_ne hmark').symm] at h
      | bulk body' =>
        simp only [List.cons_append, List.append_assoc, List.cons.injEq, true_and] at h
        exact absurd (line_unique (u := [45, 49]) (by decide) (h13 _) h).symm (h45 _)
      | null => rfl

/-! ### What the handlers write -/

lemma isReply_writeSimple {msg : Bytes} (h : OneLine msg) : IsReply (writeSimple msg) :=
  .line (.inl rfl) h

lemma isReply_writeError_iff {msg : Bytes} : IsReply (writeError msg) ↔ OneLine msg := by
  refine ⟨fun h => ?_, .line (.inr rfl)⟩
  have e : writeError msg = 45 :: msg ++ [13, 10] := rfl
  rw [e] at h
  generalize hr : 45 :: msg ++ [13, 10] = r at h
  cases h with
  | line _ hbody =>
    rw [List.cons_append, List.cons_append, List.cons.injEq] at hr
    rwa [List.append_cancel_right hr.2]
  | bulk => simp at hr
  | null => simp at hr

lemma isReply_line (msg : Bytes) (h : OneLine msg) : IsReply (ascii "-" ++ msg ++ ascii "\r\n") :=
  isReply_writeError_iff.mpr h

lemma isReply_writeBulk (bytes : Bytes) : IsReply (writeBulk bytes) := .bulk bytes

lemma isReply_writeNull : IsReply writeNull := .null

def Answers (r : Outcome) : Prop := IsReply (replyOf r.2)

lemma answers_error (node : Node) {msg : String} (h : OneLine (ascii msg)) :
    Answers (node, .ok (writeError (ascii msg))) := isReply_writeError_iff.mpr h

lemma answers_bulk (node : Node) (bytes : Bytes) : Answers (node, .ok (writeBulk bytes)) :=
  isReply_writeBulk bytes

lemma replyOf_what (e : LengthError) :
    replyOf (.error (what e)) = writeError (ascii "ERR " ++ what e) := by
  cases e <;> decide

lemma oneLine_what (e : LengthError) : OneLine (ascii "ERR " ++ what e) := by
  cases e <;> decide

variable (srv : Server) (t : Clock) (node : Node) (cmd : List Bytes)

lemma checkSet_error {msg : String} (h : checkSet cmd = .error msg) : OneLine (ascii msg) := by
  unfold checkSet at h
  repeat' split at h
  all_goals cases h
  all_goals decide

lemma answers_handleSet : Answers (handleSet srv t node cmd) := by
  unfold handleSet
  rcases h : checkSet cmd with msg | args
  · exact answers_error node (checkSet_error cmd h)
  · unfold Answers
    dsimp only
    split
    · exact isReply_writeSimple (by decide)
    · exact isReply_writeError_iff.mpr (by decide)
    · next e _ =>
      rw [replyOf_what]
      exact isReply_writeError_iff.mpr (oneLine_what e)

lemma answers_handleGet : Answers (handleGet srv t node cmd) := by
  unfold handleGet
  split
  · split
    · exact answers_error node (by decide)
    · dsimp only
      split
      · exact answers_bulk _ _
      · exact isReply_writeNull
  · exact answers_error node (by decide)

lemma answers_handleQuit : Answers (handleQuit srv t node cmd) :=
  isReply_writeSimple (by decide)

lemma answers_handleInfo : Answers (handleInfo srv t node cmd) := by
  unfold handleInfo
  split
  · exact answers_error node (by decide)
  · split
    · split
      · exact answers_error node (by decide)
      · exact answers_bulk _ _
    · exact answers_bulk _ _

/-! ### `NODE_INFO` -/

/-- What of an argument the message of an exception carries on. -/
def echoed (arg : Bytes) : Bytes := arg.takeWhile (· ≠ 0)

lemma replyOf_invalidShardId (arg : Bytes) : replyOf (.error (invalidShardId arg)) =
    writeError (ascii "ERR invalid shard id: " ++ echoed arg) := by
  rw [replyOf, invalidShardId, List.takeWhile_append_of_pos (List.all_eq_true.mp rfl)]
  simp [writeError, echoed, ascii]

lemma oneLine_append {u v : Bytes} : OneLine (u ++ v) ↔ OneLine u ∧ OneLine v := by
  simp only [OneLine, List.mem_append, not_or]
  tauto

lemma OneLine.echoed {arg : Bytes} (h : OneLine arg) : OneLine (Cmd.echoed arg) :=
  ⟨fun hm => h.1 ((List.takeWhile_sublist _).subset hm),
    fun hm => h.2 ((List.takeWhile_sublist _).subset hm)⟩

lemma oneLine_of_asciiIeq {a b : Bytes} (h : asciiIeq a b) (hb : OneLine (b.map toUpper)) :
    OneLine a := by
  simp only [asciiIeq, Bool.decide_and, Bool.and_eq_true, decide_eq_true_eq] at h
  rw [← h.2] at hb
  exact ⟨fun hm => hb.1 (List.mem_map.mpr ⟨13, hm, by decide⟩),
    fun hm => hb.2 (List.mem_map.mpr ⟨10, hm, by decide⟩)⟩

lemma parseU16_cases (s : Bytes) :
    (∃ n, parseU16 s = .ok n ∧ OneLine s) ∨ parseU16 s = .error (invalidShardId s) ∨
      parseU16 s = .error (invalidShardId (ascii "empty")) ∧ OneLine s := by
  unfold parseU16
  split
  · next hs => exact .inr (.inr ⟨rfl, by subst hs; decide⟩)
  · split
    · exact .inr (.inl rfl)
    · next hdigits =>
      have hline : OneLine s := by
        simp only [decide_not, List.any_eq_true, Bool.not_eq_true', decide_eq_false_iff_not,
          not_exists, not_and, not_not] at hdigits
        exact ⟨fun hm => absurd (hdigits 13 hm) (by decide),
          fun hm => absurd (hdigits 10 hm) (by decide)⟩
      split
      · split
        · exact .inr (.inl rfl)
        · exact .inl ⟨_, rfl, hline⟩
      · exact .inr (.inl rfl)

/-- **`NODE_INFO`** answers, or throws the text of an argument that is no shard. -/
lemma handleNodeInfo_cases :
    (Answers (handleNodeInfo srv t node cmd) ∧ ∀ name arg, cmd = [name, arg] → OneLine arg) ∨
    (∃ name arg, cmd = [name, arg] ∧
      (handleNodeInfo srv t node cmd).2 = .error (invalidShardId arg)) ∨
    ∃ name arg, cmd = [name, arg] ∧ OneLine arg ∧
      (handleNodeInfo srv t node cmd).2 = .error (invalidShardId (ascii "empty")) := by
  unfold handleNodeInfo
  split
  · exact .inl ⟨answers_bulk _ _, by simp⟩
  · next name arg =>
    split
    · next hname =>
      refine .inl ⟨answers_bulk _ _, fun _ _ e => ?_⟩
      cases e
      rw [Bool.or_eq_true] at hname
      exact hname.elim (oneLine_of_asciiIeq · (by decide)) (oneLine_of_asciiIeq · (by decide))
    · split
      · next hname =>
        refine .inl ⟨answers_bulk _ _, fun _ _ e => ?_⟩
        cases e
        exact oneLine_of_asciiIeq hname (by decide)
      · rcases parseU16_cases arg with ⟨n, hn, hline⟩ | hn | ⟨hn, hline⟩
        · refine .inl ⟨?_, fun _ _ e => ?_⟩
          · rw [hn]
            exact answers_bulk _ _
          · cases e
            exact hline
        · exact .inr (.inl ⟨name, arg, rfl, by rw [hn]; rfl⟩)
        · exact .inr (.inr ⟨name, arg, rfl, hline, by rw [hn]; rfl⟩)
  · next h1 h2 =>
    exact .inl ⟨answers_error node (by decide), fun name arg e => absurd e (h2 name arg)⟩

/-! ### The reply to a request -/

/-- The request is a `NODE_INFO` whose argument has a line break before its first NUL. -/
def EchoesLineBreak (argv : List Bytes) : Prop :=
  ∃ name arg, argv = [name, arg] ∧ asciiIeq name (ascii "NODE_INFO") ∧ ¬ OneLine (echoed arg)

/-- Two texts that differ when in capitals are not both equal to a third up to case. -/
lemma asciiIeq_eq_false {name a b : Bytes} (h : asciiIeq name a)
    (hab : a.map toUpper ≠ b.map toUpper) : asciiIeq name b = false := by
  simp only [asciiIeq, Bool.decide_and, Bool.and_eq_true, Bool.and_eq_false_iff,
    decide_eq_true_eq, decide_eq_false_iff_not] at h ⊢
  exact .inr fun hb => hab (h.2.symm.trans hb)

lemma find?_nodeInfo {name : Bytes} (h : asciiIeq name (ascii "NODE_INFO")) :
    (commandDispatch.find? fun entry => asciiIeq name entry.1) =
      some (ascii "NODE_INFO", handleNodeInfo) := by
  have h1 := asciiIeq_eq_false (b := ascii "SET") h (by decide)
  have h2 := asciiIeq_eq_false (b := ascii "GET") h (by decide)
  have h3 := asciiIeq_eq_false (b := ascii "QUIT") h (by decide)
  simp only [commandDispatch, List.find?_cons, h1, h2, h3, h]

lemma answers_of_find? {name : Bytes} {entry : Bytes × Handler}
    (hname : asciiIeq name (ascii "NODE_INFO") = false)
    (h : (commandDispatch.find? fun entry => asciiIeq name entry.1) = some entry) :
    Answers (entry.2 srv t node cmd) := by
  have hmem := List.mem_of_find?_eq_some h
  have hentry := List.find?_some h
  simp only [commandDispatch, List.mem_cons, List.not_mem_nil, or_false] at hmem
  rcases hmem with rfl | rfl | rfl | rfl | rfl
  · exact answers_handleSet srv t node cmd
  · exact answers_handleGet srv t node cmd
  · exact answers_handleQuit srv t node cmd
  · rw [hname] at hentry
    cases hentry
  · exact answers_handleInfo srv t node cmd

lemma isReply_protocolError {req : ParsedRequest} (h : ProtocolError req) : IsReply req.frame := by
  have hframe := h.frame
  simp only [List.mem_cons, List.not_mem_nil, or_false] at hframe
  rcases hframe with hframe | hframe | hframe <;> rw [hframe]
  · exact isReply_line (ascii "ERR protocol error") (by decide)
  · exact isReply_line (ascii "ERR invalid argc") (by decide)
  · exact isReply_line (ascii "ERR invalid bulk length") (by decide)

lemma isReply_nodeInfo_iff {frame name : Bytes} {args : List Bytes}
    (hname : asciiIeq name (ascii "NODE_INFO")) :
    IsReply (handleRequest srv t node ⟨frame, name :: args⟩).2 ↔
      ¬ EchoesLineBreak (name :: args) := by
  unfold handleRequest
  dsimp only
  rw [find?_nodeInfo hname]
  dsimp only
  rcases handleNodeInfo_cases srv t node (name :: args) with
    ⟨hreply, hline⟩ | ⟨name', arg, hargv, herr⟩ | ⟨name', arg, hargv, hline, herr⟩
  · refine iff_of_true hreply ?_
    rintro ⟨_, arg, hargv, -, hecho⟩
    exact hecho (hline _ arg hargv).echoed
  · rw [herr, replyOf_invalidShardId, isReply_writeError_iff, oneLine_append]
    cases hargv
    constructor
    · rintro ⟨-, hline⟩ ⟨_, _, hargv', -, hecho⟩
      cases hargv'
      exact hecho hline
    · intro hno
      exact ⟨by decide, not_not.mp fun hecho => hno ⟨_, _, rfl, hname, hecho⟩⟩
  · rw [herr, replyOf_invalidShardId]
    refine iff_of_true (isReply_writeError_iff.mpr (by decide)) ?_
    rintro ⟨_, arg', hargv', -, hecho⟩
    cases hargv.symm.trans hargv'
    exact hecho hline.echoed

lemma isReply_of_not_nodeInfo {frame name : Bytes} {args : List Bytes}
    (hname : asciiIeq name (ascii "NODE_INFO") = false) :
    IsReply (handleRequest srv t node ⟨frame, name :: args⟩).2 := by
  unfold handleRequest
  dsimp only
  rcases hfind : commandDispatch.find? fun entry => asciiIeq name entry.1 with _ | entry
  · rw [hfind]
    exact isReply_line (ascii "ERR unknown command") (by decide)
  · rw [hfind]
    exact answers_of_find? srv t node (name :: args) hname hfind

lemma isReply_handleRequest_iff {req : ParsedRequest} (hreq : Produced req) :
    IsReply (handleRequest srv t node req).2 ↔ ¬ EchoesLineBreak req.argv := by
  obtain ⟨frame, argv⟩ := req
  rcases argv with _ | ⟨name, args⟩
  · have herr : ProtocolError ⟨frame, []⟩ := hreq.cases.resolve_right (by simp)
    have hno : ¬ EchoesLineBreak [] := by rintro ⟨_, _, h, -⟩; cases h
    have hreply := isReply_protocolError herr
    refine iff_of_true ?_ hno
    unfold handleRequest
    dsimp only
    split
    · exact hreply
    · exact isReply_line (ascii "ERR empty command") (by decide)
  · by_cases hname : asciiIeq name (ascii "NODE_INFO")
    · exact isReply_nodeInfo_iff srv t node hname
    · refine iff_of_true (isReply_of_not_nodeInfo srv t node (by simpa using hname)) ?_
      rintro ⟨_, _, hargv, hname', -⟩
      cases hargv
      exact hname hname'

/-- Each of the replies is one, and their concatenation is no other list of replies. -/
structure WellSplit (replies : List Bytes) : Prop where
  isReply : ∀ r ∈ replies, IsReply r
  unique : ∀ rs : List Bytes, (∀ r ∈ rs, IsReply r) → rs.flatten = replies.flatten → rs = replies

structure Handling where
  clock : Clock
  node : Node
  req : ParsedRequest

def Handling.reply (q : Handling) : Bytes := (handleRequest srv q.clock q.node q.req).2

/-- **One well-formed reply for each request of a connection**, whatever the state in which
each of them is handled, unless a `NODE_INFO` echoes a line break. -/
theorem wellSplit_iff (qs : List Handling) (hqs : ∀ q ∈ qs, Produced q.req) :
    WellSplit (qs.map (Handling.reply srv)) ↔ ∀ q ∈ qs, ¬ EchoesLineBreak q.req.argv := by
  have hone (q : Handling) (hq : q ∈ qs) :
      IsReply (q.reply srv) ↔ ¬ EchoesLineBreak q.req.argv :=
    isReply_handleRequest_iff srv q.clock q.node (hqs q hq)
  constructor
  · intro h q hq
    exact (hone q hq).mp (h.isReply _ (List.mem_map_of_mem hq))
  · intro h
    have hall : ∀ r ∈ qs.map (Handling.reply srv), IsReply r := by
      intro r hr
      obtain ⟨q, hq, rfl⟩ := List.mem_map.mp hr
      exact (hone q hq).mpr (h q hq)
    exact ⟨hall, fun rs hrs e => prefixFree_isReply.flatten_inj hrs hall e⟩

def oneShard : Server where
  cfg := { maxSize := 4, probPoolMaxSize := 2, probThreshold := 2, reaperBudget := 1,
           softBudget := 1, softTriggered := fun used => 3 ≤ used }
  nodeCfg := {}
  smp := 1
  firstDataShard := 0
  shardId := 0
  fetchInfo := fun _ => []
  fetchJsonInfo := fun _ => []

def emptyNode : Node := fun _ => { store := start oneShard.cfg }

def onEmpty (argv : List Bytes) : Handling :=
  ⟨⟨0, 0⟩, emptyNode, ⟨writeArrayBulk argv, argv⟩⟩

/-- The commands of a client, each with the state that those before it leave. -/
def pipeline : Node → List (List Bytes) → List Handling
  | _, [] => []
  | node, argv :: rest =>
    ⟨⟨0, 0⟩, node, ⟨writeArrayBulk argv, argv⟩⟩ ::
      pipeline (handleRequest srv ⟨0, 0⟩ node ⟨writeArrayBulk argv, argv⟩).1 rest

/-- A value that looks like a reply is written and read back. -/
theorem wellSplit_pipeline :
    (pipeline oneShard emptyNode [[ascii "SET", [1], ascii "+OK\r\n"], [ascii "GET", [1]],
        [ascii "QUIT"]]).map (Handling.reply oneShard) =
      [ascii "+OK\r\n", ascii "$5\r\n+OK\r\n\r\n", ascii "+BYE\r\n"] ∧
    WellSplit ((pipeline oneShard emptyNode [[ascii "SET", [1], ascii "+OK\r\n"],
      [ascii "GET", [1]], [ascii "QUIT"]]).map (Handling.reply oneShard)) := by
  refine ⟨by decide +kernel, (wellSplit_iff oneShard _ fun q hq => ?_).mpr fun q hq => ?_⟩
  · simp only [pipeline, List.mem_cons, List.not_mem_nil, or_false] at hq
    rcases hq with rfl | rfl | rfl <;> exact produced_of_call rfl
  · simp only [pipeline, List.mem_cons, List.not_mem_nil, or_false] at hq
    rcases hq with rfl | rfl | rfl <;> rintro ⟨_, _, hargv, hname, -⟩ <;> cases hargv
    exact absurd hname (by decide)

lemma produced_nodeInfo :
    Produced ⟨writeArrayBulk [ascii "NODE_INFO", ascii "0\n1"],
      [ascii "NODE_INFO", ascii "0\n1"]⟩ :=
  produced_of_call rfl

/-- The argument `0\n1` comes back in the error line. -/
theorem not_isReply_nodeInfo :
    Produced (onEmpty [ascii "NODE_INFO", ascii "0\n1"]).req ∧
      (onEmpty [ascii "NODE_INFO", ascii "0\n1"]).reply oneShard =
        ascii "-ERR invalid shard id: 0\n1\r\n" ∧
      ¬ IsReply ((onEmpty [ascii "NODE_INFO", ascii "0\n1"]).reply oneShard) := by
  refine ⟨produced_nodeInfo, by decide, fun h => ?_⟩
  have hecho := (isReply_handleRequest_iff oneShard ⟨0, 0⟩ emptyNode produced_nodeInfo).mp h
  exact hecho ⟨_, _, rfl, by decide, by decide⟩

end ShunyaKV.Cmd
