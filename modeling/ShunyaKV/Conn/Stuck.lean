import ShunyaKV.Conn.Pipelined
import ShunyaKV.Resp.RoundTrip

/-!
A read loop that waits for a unit after the write loop is gone.

The handlers of exceptions of the write loop give back `maxInflight` units and no more. A
client whose input has requests left when these are used up leaves the read loop waiting.
-/

namespace ShunyaKV.Conn

open ShunyaKV.Lib ShunyaKV.Lib.Decimal ShunyaKV.Shard ShunyaKV.Resp

variable {H : Type}

/-- The write loop has ended, and the read loop waits for a unit that is not there. -/
def Stuck (c : Socket H) : Prop :=
  (c.writer = .returned ∨ c.writer = .aborted) ∧ (∃ req, c.reader = .blocked req) ∧ c.slots = 0

lemma Reachable.stuck_iff {c : Socket H} (h : Reachable c) :
    Stuck c ↔ c.writer = .aborted ∧ 2 * maxInflight + c.released < c.extracted.length := by
  obtain ⟨⟨hreq, -, hunits, hblocked⟩, hord⟩ := h
  constructor
  · rintro ⟨hw | hw, ⟨req, hr⟩, hs⟩
    · obtain ⟨ho, -⟩ := hord (by simp [hw])
      have hdone := ho.eof (ho.returned hw).2
      simp [hr] at hdone
    · refine ⟨hw, ?_⟩
      simp only [hw, hr, hs, ReadPc.units, WritePc.surplus] at hunits
      simp only [hreq, hr, ReadPc.request, List.length_append, List.length_singleton]
      omega
  · rintro ⟨hw, hlt⟩
    simp only [hw, WritePc.surplus] at hunits
    rw [hreq, List.length_append] at hlt
    -- a request in hand without a unit is a request that waits for one
    cases hr : c.reader with
    | blocked req => exact ⟨.inr hw, ⟨req, hr⟩, hblocked req hr⟩
    | granted _ | reading | yielding | done =>
      simp only [hr, ReadPc.request, ReadPc.units, List.length_singleton, List.length_nil]
        at hlt hunits
      omega

/-- Nothing leads out of a state that is stuck. -/
lemma stuck_act {x : Extractor H} {c d : Socket H} {a : Action} (h : Stuck c)
    (hd : c.act x a = some d) : Stuck d := by
  obtain ⟨hw, ⟨req, hr⟩, hs⟩ := h
  cases acts_of_act hd with
  | resolve i f hi => exact ⟨hw, ⟨req, hr⟩, hs⟩
  | read _ h | handOver _ h | yielded h => simp [hr] at h
  | loopHead h | reply _ _ h | written _ h | next _ h | flushed h => simp [h] at hw
  | abort _ _ h => rcases hw with hw | hw <;> simp [hw, WritePc.busy] at h

/-! ## The requests of an input -/

def inputs (acts : List Action) : List Bytes :=
  acts.filterMap fun
    | .read chunk => some (chunk.getD [])
    | _ => none

/-- The read loop gets `n` requests out of its buffer and the chunks to come, from its read or
from where it looks for the next request. -/
inductive Yields (x : Extractor H) : Bool → ℕ → List Bytes → H → Bytes → Prop
  | enough {atRead : Bool} {chunks : List Bytes} {h : H} {buf : Bytes} :
    Yields x atRead 0 chunks h buf
  | request {n : ℕ} {chunks : List Bytes} {h h' : H} {buf buf' : Bytes} {req : ParsedRequest}
    (hx : x.tryExtractRequest h buf = (h', buf', .request req))
    (hy : Yields x false n chunks h' buf') : Yields x false (n + 1) chunks h buf
  | nullopt {n : ℕ} {chunks : List Bytes} {h h' : H} {buf buf' : Bytes}
    (hx : x.tryExtractRequest h buf = (h', buf', .nullopt))
    (hy : Yields x true n chunks h' buf') : Yields x false n chunks h buf
  | chunk {n : ℕ} {chunks : List Bytes} {h : H} {buf chunk : Bytes} (hne : chunk ≠ [])
    (hlen : (buf ++ chunk).length < 2 ^ 32) (hy : Yields x false n chunks h (buf ++ chunk)) :
    Yields x true n (chunk :: chunks) h buf

lemma Yields.mono {x : Extractor H} {atRead : Bool} {n m : ℕ} {chunks : List Bytes} {h : H}
    {buf : Bytes} (hy : Yields x atRead n chunks h buf) (hm : m ≤ n) :
    Yields x atRead m chunks h buf := by
  induction hy generalizing m with
  | enough =>
    obtain rfl : m = 0 := by omega
    exact .enough
  | request hx _ ih =>
    cases m with
    | zero => exact .enough
    | succ m => exact .request hx (ih (by omega))
  | nullopt hx _ ih => exact .nullopt hx (ih hm)
  | chunk hne hlen _ ih => exact .chunk hne hlen (ih hm)

def Socket.Yields (x : Extractor H) (n : ℕ) (chunks : List Bytes) (c : Socket H) : Prop :=
  match c.reader with
  | .reading => Conn.Yields x true n chunks c.handler c.buffer
  | .done => n = 0
  | _ => Conn.Yields x false n chunks c.handler c.buffer

lemma extractNext_yields {x : Extractor H} {c : Socket H} {n : ℕ} {chunks : List Bytes}
    (hy : (c.extractNext x).Yields x n chunks) :
    ∃ k, (c.extractNext x).extracted.length = c.extracted.length + k ∧
      Yields x false (n + k) chunks c.handler c.buffer := by
  unfold Socket.extractNext at hy ⊢
  split at hy
  · rename_i hx
    exact ⟨0, rfl, .nullopt hx hy⟩
  · rename_i h' buf' hx
    obtain ⟨w, b, hs⟩ := Socket.finishRead_eq { c with handler := h', buffer := buf' }
    simp only [hs, Socket.Yields] at hy ⊢
    subst hy
    exact ⟨0, rfl, .enough⟩
  · rename_i h' buf' req hx
    refine ⟨1, ?_, .request hx ?_⟩
    · simp only
      split <;> simp
    · simp only at hy
      split at hy <;> exact hy

lemma handOver_yields {x : Extractor H} {c : Socket H} {req : ParsedRequest} {n : ℕ}
    {chunks : List Bytes} (hy : (c.handOver x req).Yields x n chunks) :
    ∃ k, (c.handOver x req).extracted.length = c.extracted.length + k ∧
      Yields x false (n + k) chunks c.handler c.buffer := by
  obtain ⟨w, b, hs⟩ := c.queue_eq req
  revert hy
  unfold Socket.handOver
  simp only [hs]
  split
  · exact fun hy => ⟨0, rfl, hy⟩
  · exact fun hy => extractNext_yields hy

lemma readChunk_yields {x : Extractor H} {c : Socket H} {chunk : Bytes} {n : ℕ}
    {chunks : List Bytes} (hy : (c.readChunk x chunk).Yields x n chunks) :
    ∃ k, (c.readChunk x chunk).extracted.length = c.extracted.length + k ∧
      Yields x true (n + k) (chunk :: chunks) c.handler c.buffer := by
  obtain ⟨w, b, hs⟩ := c.finishRead_eq
  revert hy
  unfold Socket.readChunk
  split
  · intro hy
    simp only [hs, Socket.Yields] at hy ⊢
    subst hy
    exact ⟨0, rfl, .enough⟩
  · rename_i hne
    split <;> intro hy
    · rename_i hlen
      obtain ⟨k, hk, hy⟩ := extractNext_yields hy
      exact ⟨k, hk, .chunk hne hlen hy⟩
    · simp only [hs, Socket.Yields] at hy ⊢
      subst hy
      exact ⟨0, rfl, .enough⟩

/-- The write loop does not touch what the read loop has to read. -/
def SameInput (c d : Socket H) : Prop :=
  d.extracted = c.extracted ∧ ∀ x n chunks, d.Yields x n chunks → c.Yields x n chunks

lemma signalSlots_input (c : Socket H) (n : ℕ) : SameInput c (c.signalSlots n) := by
  unfold Socket.signalSlots
  split
  · rename_i hr
    split
    · exact ⟨rfl, fun x n chunks hy => by simpa only [Socket.Yields, hr] using hy⟩
    · exact ⟨rfl, fun x n chunks hy => hy⟩
  · exact ⟨rfl, fun x n chunks hy => hy⟩

lemma loopHead_input (c : Socket H) : SameInput c c.loopHead := by
  unfold Socket.loopHead
  repeat' split
  all_goals exact ⟨rfl, fun x n chunks hy => hy⟩

lemma release_input (c : Socket H) : SameInput c c.release := by
  obtain ⟨h1, h2⟩ := signalSlots_input { c with released := c.released + 1 } 1
  obtain ⟨h3, h4⟩ := loopHead_input ({ c with released := c.released + 1 }.signalSlots 1)
  exact ⟨h3.trans h1, fun x n chunks hy => h2 x n chunks (h4 x n chunks hy)⟩

/-- What an input still yields after an action, it yields before, with the requests the action
extracts. -/
lemma act_yields {x : Extractor H} {c d : Socket H} {a : Action} {n : ℕ} {chunks : List Bytes}
    (hd : c.act x a = some d) (hy : d.Yields x n chunks) :
    ∃ k, d.extracted.length = c.extracted.length + k ∧
      c.Yields x (n + k) (inputs [a] ++ chunks) := by
  have hin {e : Socket H} (he : SameInput c e) (hy : e.Yields x n chunks) :
      ∃ k, e.extracted.length = c.extracted.length + k ∧ c.Yields x (n + k) chunks :=
    ⟨0, by rw [he.1]; rfl, he.2 _ _ _ hy⟩
  cases acts_of_act hd with
  | read chunk hr =>
    obtain ⟨k, hk, hy⟩ := readChunk_yields hy
    refine ⟨k, hk, ?_⟩
    simp only [Socket.Yields, hr]
    exact hy
  | handOver req hr =>
    obtain ⟨k, hk, hy⟩ := handOver_yields hy
    refine ⟨k, hk, ?_⟩
    simp only [Socket.Yields, hr]
    exact hy
  | yielded hr =>
    obtain ⟨k, hk, hy⟩ := extractNext_yields hy
    refine ⟨k, hk, ?_⟩
    simp only [Socket.Yields, hr]
    exact hy
  | resolve i f hi => exact ⟨0, rfl, hy⟩
  | loopHead hw => exact hin (loopHead_input c) hy
  | reply i resp hw hi => exact ⟨0, rfl, hy⟩
  | written resp hw hq => exact ⟨0, rfl, hy⟩
  | next resp hw hq => exact hin (release_input { c with out := c.out ++ [resp] }) hy
  | flushed hw => exact hin (release_input { c with flushed := c.out.length }) hy
  | abort a ha _ =>
    have hnil : inputs [a] = [] := by
      cases a with
      | read chunk => exact absurd rfl (ha chunk)
      | _ => rfl
    rw [hnil]
    exact hin
      (signalSlots_input { c with eof := true, signalled := false, writer := .aborted } _) hy

lemma inputs_cons (a : Action) (acts : List Action) :
    inputs (a :: acts) = inputs [a] ++ inputs acts := List.filterMap_append (l := [a])

/-- The requests a run extracts are requests of its input. -/
lemma runs_yields {x : Extractor H} {c d : Socket H} {acts : List Action} {n : ℕ}
    {chunks : List Bytes} (hd : Steps.runs (Socket.act x) c acts = some d)
    (hy : d.Yields x n chunks) :
    ∃ k, d.extracted.length = c.extracted.length + k ∧
      c.Yields x (n + k) (inputs acts ++ chunks) := by
  induction acts generalizing c with
  | nil =>
    cases hd
    exact ⟨0, rfl, hy⟩
  | cons a acts ih =>
    rw [Steps.runs_cons, Option.bind_eq_some_iff] at hd
    obtain ⟨e, he, hd⟩ := hd
    obtain ⟨k, hk, hy⟩ := ih hd
    obtain ⟨k', hk', hy⟩ := act_yields he hy
    refine ⟨k + k', by omega, ?_⟩
    rw [inputs_cons, List.append_assoc, ← Nat.add_assoc]
    exact hy

/-! ## An input that blocks the read loop -/

/-- Nothing has left the queue, and nothing is answered. -/
def Fresh (c : Socket H) : Prop :=
  c.respq = List.range c.replies.length ∧ ∀ f ∈ c.replies, f = .pending

/-- The read loop alone comes to wait for a unit, and has `m` requests after the one in hand. -/
def Fills (x : Extractor H) (m : ℕ) (chunks : List Bytes) (c : Socket H) : Prop :=
  ∃ acts d rest req, Steps.runs (Socket.act x) c acts = some d ∧ inputs acts ++ rest = chunks ∧
    d.reader = .blocked req ∧ d.slots = 0 ∧ d.writer = c.writer ∧
    Yields x false m rest d.handler d.buffer ∧ (Fresh c → Fresh d)

lemma Fills.step {x : Extractor H} {m : ℕ} {chunks : List Bytes} {c d : Socket H} {a : Action}
    (h : Fills x m chunks d) (ha : c.act x a = some d) (hw : d.writer = c.writer)
    (hf : Fresh c → Fresh d) : Fills x m (inputs [a] ++ chunks) c := by
  obtain ⟨acts, e, rest, req, hrun, hin, hr, hs, hwe, hy, hfe⟩ := h
  refine ⟨a :: acts, e, rest, req, ?_, ?_, hr, hs, hwe.trans hw, hy, hfe ∘ hf⟩
  · rw [Steps.runs_step ha, hrun]
  · rw [inputs_cons, List.append_assoc, hin]

lemma fresh_queue {c : Socket H} (h : Fresh c) (req : ParsedRequest) : Fresh (c.queue req) := by
  obtain ⟨w, b, hs⟩ := c.queue_eq req
  rw [hs]
  refine ⟨?_, ?_⟩
  · simp [h.1, List.range_succ]
  · simpa [or_imp, forall_and] using h.2

lemma fresh_extractNext {c : Socket H} (x : Extractor H) (h : Fresh c) :
    Fresh (c.extractNext x) := by
  unfold Socket.extractNext
  split
  · exact h
  · rename_i h' buf' _
    obtain ⟨w, b, hs⟩ := Socket.finishRead_eq { c with handler := h', buffer := buf' }
    rw [hs]
    exact h
  · simp only
    split <;> exact h

lemma fills_granted {x : Extractor H} {m : ℕ} {chunks : List Bytes} {c : Socket H}
    {req : ParsedRequest} (hr : c.reader = .granted req) (hw : c.writer ≠ .waiting)
    (h : ∀ e : Socket H, e.handler = c.handler → e.buffer = c.buffer → e.slots = c.slots →
      e.writer ≠ .waiting → Fills x m chunks (e.extractNext x)) : Fills x m chunks c := by
  have hact : c.act x .readOn = some (c.handOver x req) := by simp only [Socket.act, hr]
  have hwq := Socket.queue_writer hw req
  obtain ⟨w, b, hs⟩ := c.queue_eq req
  have hq := h (c.queue req) (by rw [hs]) (by rw [hs]) (by rw [hs]) (hwq ▸ hw)
  have hq' := h { c.queue req with reader := .yielding } (by rw [hs]) (by rw [hs]) (by rw [hs])
    (hwq ▸ hw)
  refine Fills.step (a := .readOn) ?_ hact (Socket.handOver_writer hw x req) ?_
  · unfold Socket.handOver
    simp only
    split
    · refine Fills.step (a := .readOn) hq' rfl ?_ (fresh_extractNext x)
      exact Socket.extractNext_writer (by exact hwq ▸ hw) x
    · exact hq
  · intro hf
    unfold Socket.handOver
    simp only
    split
    · exact fresh_queue hf req
    · exact fresh_extractNext x (fresh_queue hf req)

/-- **An input with more requests than there are units** brings the read loop to wait. -/
lemma Yields.fills {x : Extractor H} {atRead : Bool} {n m : ℕ} {chunks : List Bytes} {h : H}
    {buf : Bytes} (hy : Yields x atRead n chunks h buf) (c : Socket H) (hh : c.handler = h)
    (hb : c.buffer = buf) (hw : c.writer ≠ .waiting) (hn : n = c.slots + 1 + m) :
    (atRead = true → c.reader = .reading → Fills x m chunks c) ∧
      (atRead = false → Fills x m chunks (c.extractNext x)) := by
  induction hy generalizing c with
  | enough => omega
  | @request n chunks h h' buf buf' req hx hy ih =>
    subst hh hb
    refine ⟨by simp, fun _ => ?_⟩
    simp only [Socket.extractNext, hx]
    split
    · refine fills_granted rfl hw fun e he hb hs hw => ?_
      refine (ih e he hb hw ?_).2 rfl
      simp only [hs]
      omega
    · obtain rfl : n = m := by omega
      exact ⟨[], _, _, req, rfl, rfl, rfl, by simp only; omega, rfl, hy, id⟩
  | @nullopt n chunks h h' buf buf' hx hy ih =>
    subst hh hb
    refine ⟨by simp, fun _ => ?_⟩
    simp only [Socket.extractNext, hx]
    exact (ih { c with handler := h', buffer := buf', reader := .reading } rfl rfl hw hn).1 rfl rfl
  | @chunk n chunks h buf chunk hne hlen hy ih =>
    subst hh hb
    refine ⟨fun _ hr => ?_, by simp⟩
    have hfill := (ih { c with buffer := c.buffer ++ chunk, drained := 0 } rfl rfl hw hn).2 rfl
    refine hfill.step (a := .read (some chunk)) ?_ ?_ fun hf => fresh_extractNext x hf
    · simp only [Socket.act, hr, Socket.readChunk, Option.getD_some, if_neg hne, if_pos hlen]
    · exact Socket.extractNext_writer (by exact hw) x

/-- The write loop times out on the first request, and the read loop gets a unit. -/
lemma Fresh.timeout {x : Extractor H} {c : Socket H} {req : ParsedRequest} (hf : Fresh c)
    (hne : c.replies ≠ []) (hw : c.writer = .ready) (hr : c.reader = .blocked req)
    (hs : c.slots = 0) :
    Steps.runs (Socket.act x) c [.writeOn, .timeout] =
      some { c with
        respq := c.respq.tail
        eof := true
        signalled := false
        writer := .aborted
        slots := maxInflight - 1
        reader := .granted req } := by
  obtain ⟨f, replies, hreplies⟩ := List.exists_cons_of_ne_nil hne
  obtain ⟨hq, hp⟩ := hf
  have hf0 : f = .pending := hp f (by simp [hreplies])
  rw [hreplies, List.length_cons, List.range_succ_eq_map] at hq
  simp [Steps.runs, Socket.act, hw, Socket.loopHead, hq, hreplies, hf0, Socket.abort,
    Socket.signalSlots, hr, hs, maxInflight]

/-- After the timeout, `maxInflight` requests more block the read loop for good. -/
lemma Yields.stuck {x : Extractor H} {h : H} {chunks : List Bytes}
    (hy : Yields x true (2 * maxInflight + 1) chunks h []) :
    ∃ acts c, Steps.runs (Socket.act x) { handler := h } acts = some c ∧
      inputs acts <+: chunks ∧ Stuck c := by
  have hn : 2 * maxInflight + 1 = ({ handler := h } : Socket H).slots + 1 + maxInflight := by
    simp only
    omega
  obtain ⟨acts, c, rest, req, hrun, rfl, hr, hs, hw, hyc, hf⟩ :=
    (hy.fills { handler := h } rfl rfl (by simp) hn).1 rfl rfl
  -- every unit is that of a request handed over
  have hacc := (reachable_run hrun).accounted
  have hunits := hacc.units
  simp only [hs, hr, hw, ReadPc.units, WritePc.surplus] at hunits
  have hne : c.replies ≠ [] := by
    intro hnil
    have hlen := hacc.replies
    simp only [hnil, List.length_nil] at hlen
    simp only [← hlen, maxInflight] at hunits
    omega
  have hfresh : Fresh c := hf ⟨rfl, by simp⟩
  have htime := hfresh.timeout (x := x) hne hw hr hs
  have hfills : Fills x 0 rest { c with
      respq := c.respq.tail
      eof := true
      signalled := false
      writer := .aborted
      slots := maxInflight - 1
      reader := .granted req } :=
    fills_granted rfl (by simp) fun e he hb hse hwe =>
      (hyc.fills e he hb hwe (by rw [hse]; rfl)).2 rfl
  obtain ⟨acts', d, rest', req', hrun', rfl, hr', hs', hw', -, -⟩ := hfills
  refine ⟨acts ++ ([.writeOn, .timeout] ++ acts'), d, ?_, ?_, .inr hw', ⟨req', hr'⟩, hs'⟩
  · rw [Steps.runs_trans hrun, Steps.runs_trans htime, hrun']
  · rw [← List.append_assoc]
    exact ⟨rest', by simp [inputs]⟩

/-- **When a read loop is left waiting.** An input leaves no read loop waiting for a write loop
that has ended, in any interleaving and whenever the write loop aborts, exactly if it has at
most `2 * maxInflight` requests; a state is stuck exactly if the write loop has aborted and
the read loop has extracted more than that beyond the units the write loop had given back. -/
theorem never_stuck_iff (x : Extractor H) (h : H) (chunks : List Bytes) :
    ((∀ acts c, Steps.runs (Socket.act x) { handler := h } acts = some c →
        inputs acts <+: chunks → ¬ Stuck c) ↔
      ¬ Yields x true (2 * maxInflight + 1) chunks h []) ∧
    ∀ acts c, Steps.runs (Socket.act x) { handler := h } acts = some c →
      (Stuck c ↔ c.writer = .aborted ∧ 2 * maxInflight + c.released < c.extracted.length) := by
  refine ⟨⟨fun hsafe hy => ?_, fun hy acts c hrun hin hstuck => ?_⟩,
    fun acts c hrun => (reachable_run hrun).stuck_iff⟩
  · obtain ⟨acts, c, hrun, hin, hstuck⟩ := hy.stuck
    exact hsafe acts c hrun hin hstuck
  · obtain ⟨rest, rfl⟩ := hin
    have hlt := ((reachable_run hrun).stuck_iff.mp hstuck).2
    obtain ⟨_, ⟨req, hr⟩, _⟩ := hstuck
    have hnow : c.Yields x 0 rest := by
      simp only [Socket.Yields, hr]
      exact .enough
    obtain ⟨k, hk, hall⟩ := runs_yields hrun hnow
    refine hy (Yields.mono hall ?_)
    simp only [List.length_nil] at hk
    omega

/-! ## A client that does not read its replies -/

lemma yields_commands {buf : Bytes} {p : Processor} {cs : List (List Bytes)}
    (h : Pending buf [] p cs) (hcs : ∀ c ∈ cs, Command c) (hbuf : buf.length < 2 ^ 32) :
    Yields respHandler false cs.length [] p buf := by
  induction cs generalizing buf p with
  | nil => exact .enough
  | cons c cs ih =>
    obtain ⟨p', buf', r, hcall, hret⟩ := h.call hcs hbuf
    cases hret with
    | nullopt _ hrest => simp at hrest
    | request hcons hpend hlen _ =>
      obtain ⟨rfl, rfl⟩ := List.cons.inj hcons
      exact .request hcall (ih hpend (fun c hc => hcs c (by simp [hc])) (by omega))

def quits (n : ℕ) : List (List Bytes) := List.replicate n [ascii "QUIT"]

lemma quits_length (n : ℕ) : ((quits n).flatMap writeArrayBulk).length = 14 * n := by
  have hone : (writeArrayBulk [ascii "QUIT"]).length = 14 := by decide
  induction n with
  | zero => rfl
  | succ n ih =>
    rw [quits, List.replicate_succ, List.flatMap_cons, List.length_append, hone, ← quits, ih]
    omega

lemma quits_yields {n : ℕ} (hpos : 0 < n) (hn : 14 * n < 2 ^ 32) :
    Yields respHandler true n [(quits n).flatMap writeArrayBulk] {} [] := by
  have hlen := quits_length n
  have hcommands : ∀ c ∈ quits n, Command c := by
    intro c hc
    rw [List.eq_of_mem_replicate hc]
    exact ⟨by decide, by decide, by decide⟩
  refine .chunk ?_ (by rwa [List.nil_append, hlen]) ?_
  · intro hnil
    rw [hnil, List.length_nil] at hlen
    omega
  · have hy := yields_commands (p := {}) (.between rfl (Nat.zero_le _) (List.append_nil _))
      hcommands (hlen ▸ hn)
    rwa [quits, List.length_replicate] at hy

/-- `2 * maxInflight + 1` requests in one chunk, and no reply in time. -/
theorem quits_stuck :
    ∃ acts c, Steps.runs (Socket.act respHandler) { handler := {} } acts = some c ∧
      inputs acts <+: [(quits (2 * maxInflight + 1)).flatMap writeArrayBulk] ∧ Stuck c ∧
      ∀ acts' d, Steps.runs (Socket.act respHandler) c acts' = some d → Stuck d := by
  obtain ⟨acts, c, hrun, hin, hstuck⟩ := (quits_yields (by simp) (by simp [maxInflight])).stuck
  exact ⟨acts, c, hrun, hin, hstuck, fun acts' d hd =>
    Steps.runs_rule (fun _ _ _ hI ha => stuck_act hI ha) hstuck hd⟩

end ShunyaKV.Conn
