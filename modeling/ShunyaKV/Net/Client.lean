import ShunyaKV.Net.Served

/-!
The answers of the server, as a client reads them.

A client sends commands, in whatever pieces, and reads what its connection has written. It knows
which commands it has sent and which answers it has received, and nothing of shards, messages
and the order in which they are worked on.
-/

namespace ShunyaKV.Net

open ShunyaKV.Lib ShunyaKV.Lib.Decimal ShunyaKV.Lib.Ttl ShunyaKV.Shard ShunyaKV.Hash
  ShunyaKV.Resp ShunyaKV.Cmd ShunyaKV.Conn ShunyaKV.Smp

section

variable {H : Host} {P : Process}

variable (H P) in
/-- The bytes answer the command that is number `n` of the connection: the command is carried out
by its one call, which reads or writes the map once on the shard of its key; or this call is a
write that throws before; or the command makes no call. -/
inductive Answers (link : Link) (n : ℕ) (cmd : List Bytes) : Bytes → Prop
  | carriedOut {call : Call} {j : ℕ} {r : Reply} {e : Note ℕ Bytes Bytes}
    (hroute : route cmd = some call) (hcall : link.calls[n]? = some (some j))
    (hmarks : marksOf j P.cluster.log = [⟨H.owner call.key, e⟩]) (hperf : Performs j call r e) :
    Answers link n cmd (encode r)
  | refused {call : Call} {j : ℕ} (e : LengthError) (hroute : route cmd = some call)
    (hcall : link.calls[n]? = some (some j)) (hmarks : marksOf j P.cluster.log = [])
    (hwrite : ∀ k, call ≠ .get k) : Answers link n cmd (encode (.threw e))
  | byItself (hroute : route cmd = none) (info : Bytes) (node : Node) :
    Answers link n cmd (handleRequest (H.server link.self info) ⟨0, 0⟩ node (parsed cmd)).2

/-- A future with a value answers its request. -/
lemma Sound.answers (h : Sound H P) {link : Link} (hlink : link ∈ P.links) {n : ℕ}
    {cmd : List Bytes} {resp : Bytes} (hreq : link.sock.handed[n]? = some (parsed cmd))
    (hresp : link.sock.replies[n]? = some (.value resp)) : Answers H P link n cmd resp := by
  have htracks := h.tracks link hlink
  have hlt : n < link.calls.length := htracks.calls ▸ (List.getElem?_eq_some_iff.mp hreq).1
  have hcall := List.getElem?_eq_getElem hlt
  have htracked := htracks.tracked n _ _ _ hreq hcall hresp
  generalize link.calls[n] = call at hcall htracked
  generalize hf : Future.value resp = f at htracked
  cases htracked with
  | unanswered => cases hf
  | answered hroute info node =>
    cases hf
    exact .byItself hroute info node
  | underWay => cases hf
  | @acked j r reply hj hroute hphase =>
    cases hf
    have hresult : r.result = some reply := by rw [Request.result, hphase]
    rcases (h.consistent.recorded j r hj).result hresult with
      ⟨e, hmarks, hperf⟩ | ⟨hmarks, hwrite, e, rfl⟩
    · rw [h.consistent.target r (List.mem_of_getElem? hj)] at hmarks
      exact .carriedOut hroute hcall hmarks hperf
    · exact .refused e hroute hcall hmarks hwrite

/-- A run at whose end connection `i` has been sent the commands, or a part of them, and has not
stopped writing because of an error. -/
structure Talks (H : Host) (events : List Event) (P : Process) (i : ℕ) (link : Link)
    (cmds : List (List Bytes)) : Prop where
  run : Steps.runs (Process.act H) (.fresh H) events = some P
  linked : P.links[i]? = some link
  writer : link.sock.writer ≠ .aborted
  commands : ∀ cmd ∈ cmds, Command cmd
  sent : sentTo i events <+: cmds.flatMap writeArrayBulk

section

variable {events : List Event} {i : ℕ} {link : Link} {cmds : List (List Bytes)}

lemma Talks.answers (h : Talks H events P i link cmds) {n : ℕ} {resp : Bytes}
    (hresp : link.sock.out[n]? = some resp) :
    ∃ cmd, cmds[n]? = some cmd ∧ Answers H P link n cmd resp := by
  have hmem := List.mem_of_getElem? h.linked
  have hheard := heard_runs h.run
  obtain ⟨got, todo, rfl, hext, -⟩ := (hheard.reads i link h.linked).commands h.commands h.sent
  obtain ⟨hacc, hord⟩ := hheard.reachable link hmem
  have hreply : link.sock.replies[n]? = some (.value resp) := by
    have hwritten := congrArg (·[n]?) (hord h.writer).1.written
    have hlt := (List.getElem?_eq_some_iff.mp hresp).1
    simpa only [List.getElem?_map, hresp, List.getElem?_take, if_pos hlt, Option.map_some] using
      hwritten.symm
  have hn : n < link.sock.handed.length := hacc.replies ▸ (List.getElem?_eq_some_iff.mp hreply).1
  have hreq : link.sock.handed[n]? = (got.map parsed)[n]? := by
    rw [← hext, hacc.requests, List.getElem?_append_left hn]
  have hgot : n < got.length := by
    have hle := congrArg List.length hacc.requests
    rw [hext, List.length_map, List.length_append] at hle
    omega
  rw [List.getElem?_map, List.getElem?_eq_getElem hgot, Option.map_some] at hreq
  refine ⟨got[n], ?_, (sound_runs h.run).answers hmem hreq hreply⟩
  rw [List.getElem?_append_left hgot, List.getElem?_eq_getElem hgot]

end

/-! ### Reads after acknowledged writes -/

lemma Answers.wrote {link : Link} {n : ℕ} {cmd : List Bytes} {resp : Bytes} {call : Call}
    (h : Answers H P link n cmd resp) (hok : resp = writeSimple (ascii "OK"))
    (hroute : route cmd = some call) (hwrite : call ≠ .get call.key) :
    ∃ j v d, link.calls[n]? = some (some j) ∧ .wrote j call.key v d ∈ P.cluster.notes := by
  cases h with
  | byItself hnone => cases hroute.symm.trans hnone
  | refused e => cases e <;> exact absurd hok (by decide)
  | @carriedOut call' j r e hroute' hcall hmarks hperf =>
    obtain rfl : call = call' := Option.some.inj (hroute.symm.trans hroute')
    have hmem : e ∈ P.cluster.notes := by
      have hm : (⟨H.owner call.key, e⟩ : Mark) ∈ marksOf j P.cluster.log := by simp [hmarks]
      exact List.mem_map_of_mem (List.mem_of_mem_filter hm)
    cases hperf with
    | set k v d => exact ⟨j, v, d, hcall, hmem⟩
    | setWithTtl k v ttl now => exact ⟨j, v, _, hcall, hmem⟩
    | get k now answer => exact absurd rfl hwrite

/-- An answered read is in the log, and its answer is the one the log has. -/
lemma Answers.read {link : Link} {n : ℕ} {cmd : List Bytes} {resp k : Bytes}
    (h : Answers H P link n cmd resp) (hroute : route cmd = some (.get k)) :
    ∃ j now answer, link.calls[n]? = some (some j) ∧ resp = encode (.found answer) ∧
      marksOf j P.cluster.log = [⟨H.owner k, .read j k now answer⟩] := by
  cases h with
  | byItself hnone => cases hroute.symm.trans hnone
  | refused e hroute' _ _ hwrite =>
    exact absurd (Option.some.inj (hroute'.symm.trans hroute)) (hwrite k)
  | @carriedOut call' j r e hroute' hcall hmarks hperf =>
    obtain rfl : .get k = call' := Option.some.inj (hroute.symm.trans hroute')
    cases hperf with
    | get k now answer => exact ⟨j, now, answer, hcall, rfl, hmarks⟩

/-- A read that the log gets after a write returns nothing older than it. -/
lemma read_since {M : Machine} {o : Observed} (h : Consistent M o) {log₁ : List Mark}
    (hlog : log₁ <+: o.log) {i j sid now : ℕ} {k v : Bytes} {d : ℕ} {answer : Option Bytes}
    (hwrote : .wrote i k v d ∈ log₁.map Mark.note) (hnone : marksOf j log₁ = [])
    (hread : marksOf j o.log = [⟨sid, .read j k now answer⟩]) :
    ∃ log log' v d since, o.log = (log₁ ++ log) ++ ⟨sid, .read j k now answer⟩ :: log' ∧
      Latest ((log₁ ++ log).map Mark.note) i k v d since ∧
      answer = if .removed k ∉ since ∧ Live now d then some v else none := by
  obtain ⟨ext, hext⟩ := hlog
  have hmem : (⟨sid, .read j k now answer⟩ : Mark) ∈ ext := by
    have hm : (⟨sid, .read j k now answer⟩ : Mark) ∈ marksOf j log₁ ++ marksOf j ext := by
      have happend : marksOf j log₁ ++ marksOf j ext = marksOf j o.log := by
        rw [marksOf, marksOf, ← List.filter_append, hext, marksOf]
      rw [happend, hread]
      exact List.mem_singleton_self _
    rw [hnone, List.nil_append] at hm
    exact List.mem_of_mem_filter hm
  obtain ⟨log, log', rfl⟩ := List.append_of_mem hmem
  rw [← List.append_assoc] at hext
  have hnotes : o.notes = (log₁ ++ log).map Mark.note ++
      .read j k now answer :: log'.map Mark.note := by
    rw [Observed.notes, ← hext, List.map_append, List.map_cons]
  have hwrote' : .wrote i k v d ∈ (log₁ ++ log).map Mark.note := by
    rw [List.map_append]
    exact List.mem_append_left _ hwrote
  obtain ⟨v', d', since, hlatest, hanswer⟩ := h.faithful.latest hnotes hwrote'
  exact ⟨log, log', v', d', since, hext.symm, hlatest, hanswer⟩

/-- A command that had not been sent has no call yet. -/
lemma unsent_unmarked {events : List Event}
    (hrun : Steps.runs (Process.act H) (.fresh H) events = some P) {i m j : ℕ}
    {cmds : List (List Bytes)} (hcmds : ∀ cmd ∈ cmds, Command cmd) (hlen : cmds.length ≤ m)
    (hsent : sentTo i events <+: cmds.flatMap writeArrayBulk) {P' : Process} {events' : List Event}
    (hrun' : Steps.runs (Process.act H) P events' = some P') (hsound : Sound H P')
    (hj : Carries P' i m j) : marksOf j P.cluster.log = [] := by
  have hP := sound_runs hrun
  refine hP.consistent.unknown j (Nat.le_of_not_lt fun hlt => ?_)
  obtain ⟨i', n, hcarries⟩ := (hP.carried j).mp hlt
  obtain ⟨rfl, rfl⟩ := hsound.unique _ _ _ _ _ (hcarries.runs hrun') hj
  obtain ⟨link, hlink, hn⟩ := hcarries
  have hheard := heard_runs hrun
  obtain ⟨got, todo, rfl, hext, -⟩ := (hheard.reads i' link hlink).commands hcmds hsent
  have hmem := List.mem_of_getElem? hlink
  have hcalls := (hP.tracks link hmem).calls
  have hle := congrArg List.length (hheard.reachable link hmem).accounted.requests
  have hlt := (List.getElem?_eq_some_iff.mp hn).1
  rw [hext, List.length_map, List.length_append] at hle
  rw [List.length_append] at hlen
  omega

section

variable {events₁ events₂ : List Event} {P₁ P₂ : Process} {i₁ i₂ n m : ℕ} {link₁ link₂ : Link}
  {cmds₁ cmds₂ : List (List Bytes)} {cmd get : List Bytes} {call : Call} {resp : Bytes}

lemma Talks.write_read (h₁ : Talks H events₁ P₁ i₁ link₁ cmds₁)
    (h₂ : Talks H (events₁ ++ events₂) P₂ i₂ link₂ cmds₂) (hcmd : cmds₁[n]? = some cmd)
    (hroute : route cmd = some call) (hwrite : call ≠ .get call.key)
    (hanswered : link₁.sock.out[n]? = some (writeSimple (ascii "OK"))) (hget : cmds₂[m]? = some get)
    (hroute' : route get = some (.get call.key))
    (hlater : sentTo i₂ events₁ <+: (cmds₂.take m).flatMap writeArrayBulk)
    (hresp : link₂.sock.out[m]? = some resp) :
    ∃ j j' answer now log log' v d since, resp = encode (.found answer) ∧
      Carries P₁ i₁ n j ∧ Carries P₂ i₂ m j' ∧
      P₂.cluster.log = (P₁.cluster.log ++ log) ++
        ⟨H.owner call.key, .read j' call.key now answer⟩ :: log' ∧
      Latest ((P₁.cluster.log ++ log).map Mark.note) j call.key v d since ∧
      answer = if .removed call.key ∉ since ∧ Live now d then some v else none := by
  have hrun₂ : Steps.runs (Process.act H) P₁ events₂ = some P₂ :=
    (Steps.runs_trans h₁.run events₂).symm.trans h₂.run
  have hsound₂ := sound_runs h₂.run
  -- the write
  obtain ⟨cmd', hcmd', hans⟩ := h₁.answers hanswered
  obtain rfl : cmd = cmd' := Option.some.inj (hcmd.symm.trans hcmd')
  -- the read
  obtain ⟨get', hget', hans'⟩ := h₂.answers hresp
  obtain rfl : get = get' := Option.some.inj (hget.symm.trans hget')
  obtain ⟨j, v, d, hj, hwrote⟩ := hans.wrote rfl hroute hwrite
  obtain ⟨j', now, answer, hj', hreply, hread⟩ := hans'.read hroute'
  have hcarries' : Carries P₂ i₂ m j' := ⟨link₂, h₂.linked, hj'⟩
  have hnone := unsent_unmarked h₁.run (fun cmd hmem => h₂.commands cmd (List.mem_of_mem_take hmem))
    (List.length_take_le m cmds₂) hlater hrun₂ hsound₂ hcarries'
  obtain ⟨log, log', v', d', since, hlog, hlatest, hanswer⟩ :=
    read_since hsound₂.consistent (log_runs hrun₂) hwrote hnone hread
  exact ⟨j, j', answer, now, log, log', v', d', since, hreply, ⟨link₁, h₁.linked, hj⟩, hcarries',
    hlog, hlatest, hanswer⟩

end

end

/-! ### Two clients -/

def setEvents : List Event :=
  [.connect 0, .loops 0 (.read (some (writeArrayBulk [ascii "SET", [1], [2]]))), .loops 0 .readOn,
    .run 0 0 0, .run 0 0 0, .finish 0, .deliver 0 0, .loops 0 .writeOn, .loops 0 .reply,
    .loops 0 (.written true)]

def getEvents : List Event :=
  [.connect 1, .loops 1 (.read (some (writeArrayBulk [ascii "GET", [1]]))), .loops 1 .readOn,
    .run 1 1 1, .finish 1, .deliver 1 0, .loops 1 .writeOn, .loops 1 .reply,
    .loops 1 (.written true)]

def outputs (P : Process) : List (WritePc × List Bytes) :=
  P.links.map fun link => (link.sock.writer, link.sock.out)

lemma link_of_outputs {P : Process} {i : ℕ} {w : WritePc} {out : List Bytes}
    (h : (outputs P)[i]? = some (w, out)) :
    ∃ link, P.links[i]? = some link ∧ link.sock.writer = w ∧ link.sock.out = out := by
  rw [outputs, List.getElem?_map, Option.map_eq_some_iff] at h
  obtain ⟨link, hlink, hout⟩ := h
  exact ⟨link, hlink, congrArg Prod.fst hout, congrArg Prod.snd hout⟩

lemma command_set : ∀ cmd ∈ [[ascii "SET", [1], [2]]], Command cmd := by
  rintro cmd hcmd
  obtain rfl := List.mem_singleton.mp hcmd
  exact ⟨by decide, by decide, by decide⟩

lemma command_get : ∀ cmd ∈ [[ascii "GET", [1]]], Command cmd := by
  rintro cmd hcmd
  obtain rfl := List.mem_singleton.mp hcmd
  exact ⟨by decide, by decide, by decide⟩

end ShunyaKV.Net
