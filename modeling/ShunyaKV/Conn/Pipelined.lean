import ShunyaKV.Conn.Socket

/-!
The replies a connection has written, and where the units of its semaphore are.

A unit is free, or stands for a request: from the moment the read loop gets it to the moment
the write loop gives it back. The write loop takes the futures in the order of the requests.
-/

namespace ShunyaKV.Conn

open ShunyaKV.Lib ShunyaKV.Lib.Decimal ShunyaKV.Shard ShunyaKV.Resp

/-- The request the read loop has extracted and not yet handed over. -/
def ReadPc.request : ReadPc → List ParsedRequest
  | .blocked req => [req]
  | .granted req => [req]
  | _ => []

/-- The unit just taken by the read loop. -/
def ReadPc.units : ReadPc → ℕ
  | .granted _ => 1
  | _ => 0

/-- The future off the queue whose reply is not yet written. -/
def WritePc.taken : WritePc → ℕ
  | .awaiting _ => 1
  | .writing _ => 1
  | _ => 0

/-- The unit of a reply that is written and being flushed. -/
def WritePc.units : WritePc → ℕ
  | .flushing => 1
  | _ => 0

/-- The units the handlers of exceptions gave back at once. -/
def WritePc.surplus : WritePc → ℕ
  | .aborted => maxInflight
  | _ => 0

def WritePc.idle : WritePc → Bool
  | .ready => true
  | .waiting => true
  | .returned => true
  | _ => false

/-- Every unit is accounted for, when `k` of them are about to be signalled. -/
structure Accounted {H : Type} (k : ℕ) (c : Socket H) : Prop where
  requests : c.extracted = c.handed ++ c.reader.request
  replies : c.replies.length = c.handed.length
  units : c.slots + c.handed.length + c.reader.units + k =
    maxInflight + c.released + c.writer.surplus
  blocked : ∀ req, c.reader = .blocked req → c.slots = 0

/-- The replies written are those of the first requests, and the queue has the futures of the
others in their order. -/
structure Ordered {H : Type} (c : Socket H) : Prop where
  written : c.out.map .value = c.replies.take c.out.length
  queue : c.respq = List.range' (c.out.length + c.writer.taken) c.respq.length
  queued : c.out.length + c.writer.taken + c.respq.length = c.replies.length
  awaiting : ∀ i, c.writer = .awaiting i → i = c.out.length
  writing : ∀ resp, c.writer = .writing resp → c.replies[c.out.length]? = some (.value resp)
  eof : c.eof = true → c.reader = .done
  returned : c.writer = .returned → c.respq = [] ∧ c.eof = true
  flushed : c.writer.idle = true → c.flushed = c.out.length
  repaid : c.released + c.writer.units = c.out.length

/-- The write loop waits for nothing that has already come. -/
def Waits {H : Type} (c : Socket H) : Prop := c.writer = .waiting → c.respq = [] ∧ c.eof = false

/-- The order at the head of the write loop, whatever `writer` says. -/
structure AtHead {H : Type} (c : Socket H) : Prop where
  written : c.out.map .value = c.replies.take c.out.length
  queue : c.respq = List.range' c.out.length c.respq.length
  queued : c.out.length + c.respq.length = c.replies.length
  eof : c.eof = true → c.reader = .done
  flushed : c.respq = [] → c.flushed = c.out.length
  repaid : c.released = c.out.length

section

variable {H : Type} {k : ℕ} {c : Socket H}

lemma Accounted.signal (h : Accounted k c) : Accounted k c.signal := by
  obtain ⟨h1, h2, h3, h4⟩ := h
  unfold Socket.signal
  split
  · rename_i hw
    refine ⟨h1, h2, ?_, h4⟩
    simpa [hw, WritePc.surplus] using h3
  · exact ⟨h1, h2, h3, h4⟩

lemma Accounted.signalSlots (h : Accounted k c) : Accounted 0 (c.signalSlots k) := by
  obtain ⟨h1, h2, h3, h4⟩ := h
  unfold Socket.signalSlots
  split
  · rename_i req hr
    have hs := h4 req hr
    simp only [hr, ReadPc.request, ReadPc.units] at h1 h3
    split
    · refine ⟨h1, h2, ?_, by simp⟩
      simp only [ReadPc.units]
      omega
    · refine ⟨by simpa [hr, ReadPc.request] using h1, h2, ?_, by intros; simp only; omega⟩
      simp only [hr, ReadPc.units]
      omega
  · rename_i hr
    refine ⟨h1, h2, ?_, fun req h => absurd h (hr req)⟩
    simp only
    omega

lemma Accounted.loopHead (h : Accounted k c) (hw : c.writer ≠ .aborted) :
    Accounted k c.loopHead := by
  obtain ⟨h1, h2, h3, h4⟩ := h
  have hs : c.writer.surplus = 0 := by
    cases hc : c.writer <;> first | rfl | exact absurd hc hw
  rw [hs] at h3
  unfold Socket.loopHead
  repeat' split
  all_goals exact ⟨h1, h2, h3, h4⟩

lemma Accounted.release (h : Accounted 0 c) (hw : c.writer ≠ .aborted) :
    Accounted 0 c.release := by
  have h' : Accounted 1 { c with released := c.released + 1 } := by
    obtain ⟨h1, h2, h3, h4⟩ := h
    refine ⟨h1, h2, ?_, h4⟩
    simp only
    omega
  refine Accounted.loopHead h'.signalSlots ?_
  unfold Socket.signalSlots
  repeat' split
  all_goals exact hw

lemma Accounted.abort (h : Accounted 0 c) (hw : c.writer ≠ .aborted) : Accounted 0 c.abort := by
  refine Accounted.signalSlots ?_
  obtain ⟨h1, h2, h3, h4⟩ := h
  have hs : c.writer.surplus = 0 := by
    cases hc : c.writer <;> first | rfl | exact absurd hc hw
  rw [hs] at h3
  refine ⟨h1, h2, ?_, h4⟩
  simp only [WritePc.surplus]
  omega

/-- Where the read loop goes on it holds neither a request nor a unit. -/
lemma accounted_finishRead (h : Accounted k { c with reader := .yielding }) :
    Accounted k c.finishRead := by
  obtain ⟨h1, h2, h3, _⟩ := h
  exact Accounted.signal ⟨h1, h2, h3, by simp⟩

lemma accounted_extractNext (x : Extractor H) (h : Accounted 0 { c with reader := .yielding }) :
    Accounted 0 (c.extractNext x) := by
  obtain ⟨h1, h2, h3, _⟩ := h
  simp only [ReadPc.request, List.append_nil, ReadPc.units] at h1 h2 h3
  unfold Socket.extractNext
  split
  · exact ⟨by simpa [ReadPc.request] using h1, h2, h3, by simp⟩
  · exact accounted_finishRead ⟨by simpa [ReadPc.request] using h1, h2, h3, by simp⟩
  · rename_i req _
    simp only
    split
    · refine ⟨by simp [ReadPc.request, h1], h2, ?_, by simp⟩
      simp only [ReadPc.units]
      omega
    · refine ⟨by simp [ReadPc.request, h1], h2, h3, ?_⟩
      intros
      simp only
      omega

lemma signal_reader (r : ReadPc) :
    { c with reader := r }.signal = { c.signal with reader := r } := by
  unfold Socket.signal
  cases c.writer <;> rfl

lemma accounted_queue {req : ParsedRequest} (h : Accounted 0 c) (hr : c.reader = .granted req) :
    Accounted 0 { c.queue req with reader := .yielding } := by
  obtain ⟨h1, h2, h3, _⟩ := h
  simp only [hr, ReadPc.request, ReadPc.units] at h1 h3
  rw [Socket.queue, ← signal_reader]
  refine Accounted.signal ⟨by simp [ReadPc.request, h1], by simp [h2], ?_, by simp⟩
  simp only [ReadPc.units, List.length_append, List.length_singleton]
  omega

lemma accounted_handOver (x : Extractor H) {req : ParsedRequest} (h : Accounted 0 c)
    (hr : c.reader = .granted req) : Accounted 0 (c.handOver x req) := by
  have hq := accounted_queue h hr
  unfold Socket.handOver
  simp only
  split
  · exact hq
  · exact accounted_extractNext x hq

lemma accounted_readChunk (x : Extractor H) (chunk : Bytes) (h : Accounted 0 c)
    (hr : c.reader = .reading) : Accounted 0 (c.readChunk x chunk) := by
  obtain ⟨h1, h2, h3, h4⟩ := h
  rw [hr] at h1 h3
  unfold Socket.readChunk
  split
  · exact accounted_finishRead ⟨h1, h2, h3, by simp⟩
  · split
    · exact accounted_extractNext x ⟨h1, h2, h3, by simp⟩
    · exact accounted_finishRead ⟨h1, h2, h3, by simp⟩

/-- **Every unit stays accounted for.** -/
lemma accounted_act {x : Extractor H} {a : Action} {c d : Socket H} (h : Accounted 0 c)
    (hd : c.act x a = some d) : Accounted 0 d := by
  cases acts_of_act hd with
  | read chunk hr => exact accounted_readChunk x _ h hr
  | handOver req hr => exact accounted_handOver x h hr
  | yielded hr =>
    obtain ⟨h1, h2, h3, _⟩ := h
    rw [hr] at h1 h3
    exact accounted_extractNext x ⟨h1, h2, h3, by simp⟩
  | resolve i f hi =>
    obtain ⟨h1, h2, h3, h4⟩ := h
    exact ⟨h1, by simpa using h2, h3, h4⟩
  | loopHead hw => exact h.loopHead (by simp [hw])
  | reply i resp hw hi =>
    obtain ⟨h1, h2, h3, h4⟩ := h
    exact ⟨h1, h2, by simpa [hw, WritePc.surplus] using h3, h4⟩
  | written resp hw hq =>
    obtain ⟨h1, h2, h3, h4⟩ := h
    exact ⟨h1, h2, by simpa [hw, WritePc.surplus] using h3, h4⟩
  | next resp hw hq =>
    refine Accounted.release ?_ (by simp [hw])
    obtain ⟨h1, h2, h3, h4⟩ := h
    exact ⟨h1, h2, h3, h4⟩
  | flushed hw =>
    refine Accounted.release ?_ (by simp [hw])
    obtain ⟨h1, h2, h3, h4⟩ := h
    exact ⟨h1, h2, h3, h4⟩
  | abort _ _ hw => exact h.abort fun ha => by simp [ha, WritePc.busy] at hw

/-! ## The order -/

lemma Ordered.signal (h : Ordered c) : Ordered c.signal := by
  unfold Socket.signal
  split
  · rename_i hw
    obtain ⟨h1, h2, h3, _, _, h6, _, h8, h9⟩ := h
    rw [hw] at h2 h3 h8 h9
    exact ⟨h1, h2, h3, by simp, by simp, h6, by simp, h8, h9⟩
  · exact ⟨h.1, h.2, h.3, h.4, h.5, h.6, h.7, h.8, h.9⟩

lemma waits_signal : Waits c.signal := by
  intro hw
  unfold Socket.signal at hw
  split at hw
  · simp at hw
  · rename_i hn
    exact absurd hw hn

lemma Ordered.signalSlots (h : Ordered c) (n : ℕ) : Ordered (c.signalSlots n) := by
  obtain ⟨h1, h2, h3, h4, h5, h6, h7, h8, h9⟩ := h
  unfold Socket.signalSlots
  split
  · rename_i hr
    split
    · exact ⟨h1, h2, h3, h4, h5, fun he => absurd (h6 he) (by simp [hr]), h7, h8, h9⟩
    · exact ⟨h1, h2, h3, h4, h5, h6, h7, h8, h9⟩
  · exact ⟨h1, h2, h3, h4, h5, h6, h7, h8, h9⟩

lemma ordered_finishRead (h : Ordered c) : Ordered c.finishRead := by
  refine Ordered.signal ⟨h.1, h.2, h.3, h.4, h.5, fun _ => rfl, ?_, h.8, h.9⟩
  exact fun hw => ⟨(h.returned hw).1, rfl⟩

lemma ordered_extractNext (x : Extractor H) (h : Ordered c) (hw : Waits c) (he : c.eof = false) :
    Ordered (c.extractNext x) ∧ Waits (c.extractNext x) := by
  have hn : c.eof = true → ∀ r : ReadPc, r = .done := by simp [he]
  unfold Socket.extractNext
  split
  · exact ⟨⟨h.1, h.2, h.3, h.4, h.5, fun e => hn e _, h.7, h.8, h.9⟩, hw⟩
  · exact ⟨ordered_finishRead ⟨h.1, h.2, h.3, h.4, h.5, fun e => hn e _, h.7, h.8, h.9⟩,
      waits_signal⟩
  · simp only
    split
    all_goals exact ⟨⟨h.1, h.2, h.3, h.4, h.5, fun e => hn e _, h.7, h.8, h.9⟩, hw⟩

lemma ordered_queue (h : Ordered c) (he : c.eof = false) (req : ParsedRequest) :
    Ordered (c.queue req) := by
  have hlen : c.out.length ≤ c.replies.length := by
    have := h.queued
    omega
  refine Ordered.signal ⟨?_, ?_, ?_, h.4, ?_, h.6, ?_, h.8, h.9⟩
  · simpa [List.take_append_of_le_length hlen] using h.written
  · simp only [List.length_append, List.length_singleton]
    rw [List.range'_1_concat, ← h.queue, h.queued]
  · simp only [List.length_append, List.length_singleton]
    have := h.queued
    omega
  · intro resp hw
    have hq := h.queued
    simp only at hw ⊢
    simp only [hw, WritePc.taken] at hq
    rw [List.getElem?_append_left (by omega)]
    exact h.writing resp hw
  · intro hw
    have := (h.returned hw).2
    simp [he] at this

lemma ordered_handOver (x : Extractor H) (h : Ordered c) (he : c.eof = false)
    (req : ParsedRequest) : Ordered (c.handOver x req) ∧ Waits (c.handOver x req) := by
  have hq := ordered_queue h he req
  have heq : (c.queue req).eof = false := by
    obtain ⟨w, b, hs⟩ := c.queue_eq req
    rw [hs]
    exact he
  unfold Socket.handOver
  simp only
  split
  · refine ⟨⟨hq.1, hq.2, hq.3, hq.4, hq.5, ?_, hq.7, hq.8, hq.9⟩, waits_signal⟩
    simp [heq]
  · exact ordered_extractNext x hq waits_signal heq

lemma ordered_readChunk (x : Extractor H) (h : Ordered c) (hw : Waits c) (he : c.eof = false)
    (chunk : Bytes) : Ordered (c.readChunk x chunk) ∧ Waits (c.readChunk x chunk) := by
  unfold Socket.readChunk
  split
  · exact ⟨ordered_finishRead h, waits_signal⟩
  · split
    · exact ordered_extractNext x ⟨h.1, h.2, h.3, h.4, h.5, h.6, h.7, h.8, h.9⟩ hw he
    · exact ⟨ordered_finishRead h, waits_signal⟩

lemma ordered_loopHead (h : AtHead c) : Ordered c.loopHead ∧ Waits c.loopHead := by
  obtain ⟨h1, h2, h3, h4, h5, h6⟩ := h
  unfold Socket.loopHead
  split
  · rename_i i respq hq
    rw [hq, List.length_cons, List.range'_succ, List.cons.injEq] at h2
    rw [hq, List.length_cons] at h3
    refine ⟨⟨h1, h2.2, ?_, ?_, by simp, h4, by simp, by simp [WritePc.idle], h6⟩, by simp [Waits]⟩
    · simp only [WritePc.taken]
      omega
    · simpa using h2.1
  · rename_i hq
    have hf := h5 hq
    split
    · rename_i he
      exact ⟨⟨h1, h2, h3, by simp, by simp, h4, fun _ => ⟨hq, he⟩, fun _ => hf, h6⟩,
        by simp [Waits]⟩
    · rename_i he
      split
      · exact ⟨⟨h1, h2, h3, by simp, by simp, h4, by simp, fun _ => hf, h6⟩, by simp [Waits]⟩
      · exact ⟨⟨h1, h2, h3, by simp, by simp, h4, by simp, fun _ => hf, h6⟩,
          fun _ => ⟨hq, by simpa using he⟩⟩

lemma ordered_release (hw : c.out.map .value = c.replies.take c.out.length)
    (hq : c.respq = List.range' c.out.length c.respq.length)
    (hn : c.out.length + c.respq.length = c.replies.length) (he : c.eof = true → c.reader = .done)
    (hf : c.respq = [] → c.flushed = c.out.length) (hr : c.released + 1 = c.out.length) :
    Ordered c.release ∧ Waits c.release := by
  refine ordered_loopHead ?_
  unfold Socket.signalSlots
  split
  · rename_i hb
    split
    · exact ⟨hw, hq, hn, fun e => absurd ((he e).symm.trans hb) (by simp), hf, hr⟩
    · exact ⟨hw, hq, hn, he, hf, hr⟩
  · exact ⟨hw, hq, hn, he, hf, hr⟩

lemma ordered_resolve {i : ℕ} (h : Ordered c) (hi : c.replies[i]? = some .pending) (f : Future) :
    Ordered { c with replies := c.replies.set i f } := by
  -- a pending future is none of those whose replies are written
  have hlt : c.out.length ≤ i := by
    by_contra hlt
    have hj := congrArg (·[i]?) h.written
    simp [hi, show i < c.out.length by omega] at hj
  refine ⟨?_, h.2, by simpa using h.queued, h.4, ?_, h.6, h.7, h.8, h.9⟩
  · simpa [List.take_set_of_le hlt] using h.written
  · intro resp hr
    have hv := h.writing resp hr
    have hne : i ≠ c.out.length := by
      rintro rfl
      simp [hi] at hv
    rw [← hv]
    exact List.getElem?_set_ne hne

lemma Ordered.written_snoc {resp : Bytes} (h : Ordered c) (hc : c.writer = .writing resp) :
    (c.out ++ [resp]).map .value = c.replies.take (c.out ++ [resp]).length ∧
      c.respq = List.range' (c.out ++ [resp]).length c.respq.length ∧
      (c.out ++ [resp]).length + c.respq.length = c.replies.length ∧
      c.released + 1 = (c.out ++ [resp]).length := by
  have hlen : (c.out ++ [resp]).length = c.out.length + 1 := by simp
  have hq := h.queue
  have hn := h.queued
  have hr := h.repaid
  rw [hc] at hq hn hr
  rw [hlen]
  refine ⟨?_, hq, hn, by rw [← hr]; rfl⟩
  rw [List.take_add_one, h.writing resp hc, ← h.written]
  simp

/-- **What has been written stays the replies of the first requests.** -/
lemma ordered_act {x : Extractor H} {a : Action} {c d : Socket H} (h : Ordered c) (hw : Waits c)
    (hd : c.act x a = some d) (hn : d.writer ≠ .aborted) : Ordered d ∧ Waits d := by
  have heof : c.reader ≠ .done → c.eof = false := by
    intro hr
    by_contra he
    exact hr (h.eof (by simpa using he))
  cases acts_of_act hd with
  | read chunk hr => exact ordered_readChunk x h hw (heof (by simp [hr])) _
  | handOver req hr => exact ordered_handOver x h (heof (by simp [hr])) req
  | yielded hr => exact ordered_extractNext x h hw (heof (by simp [hr]))
  | resolve i f hi => exact ⟨ordered_resolve h hi f, hw⟩
  | loopHead hc =>
    obtain ⟨h1, h2, h3, _, _, h6, _, h8, h9⟩ := h
    rw [hc] at h2 h3 h8 h9
    exact ordered_loopHead ⟨h1, h2, h3, h6, fun _ => h8 rfl, h9⟩
  | reply i resp hc hi =>
    obtain ⟨h1, h2, h3, h4, _, h6, _, _, h9⟩ := h
    rw [hc] at h2 h3 h9
    rw [h4 i hc] at hi
    refine ⟨⟨h1, h2, h3, by simp, ?_, h6, by simp, by simp [WritePc.idle], h9⟩, by simp [Waits]⟩
    rintro _ ⟨⟩
    exact hi
  | written resp hc hq =>
    obtain ⟨hs, hqueue, hqueued, hrepaid⟩ := h.written_snoc hc
    exact ⟨⟨hs, hqueue, hqueued, by simp, by simp, h.eof, by simp, by simp [WritePc.idle], hrepaid⟩,
      by simp [Waits]⟩
  | next resp hc hq =>
    obtain ⟨hs, hqueue, hqueued, hrepaid⟩ := h.written_snoc hc
    exact ordered_release hs hqueue hqueued h.eof (fun e => absurd e hq) hrepaid
  | flushed hc =>
    obtain ⟨h1, h2, h3, _, _, h6, _, _, h9⟩ := h
    rw [hc] at h2 h3 h9
    exact ordered_release h1 h2 h3 h6 (fun _ => rfl) h9
  | abort _ _ _ =>
    refine absurd ?_ hn
    unfold Socket.abort Socket.signalSlots
    repeat' split
    all_goals rfl

structure Reachable (c : Socket H) : Prop where
  accounted : Accounted 0 c
  ordered : c.writer ≠ .aborted → Ordered c ∧ Waits c

lemma reachable_init (h : H) : Reachable ({ handler := h } : Socket H) where
  accounted := ⟨rfl, rfl, rfl, by simp⟩
  ordered _ := ⟨⟨rfl, rfl, rfl, by simp, by simp, by simp, by simp, fun _ => rfl, rfl⟩,
    by simp [Waits]⟩

/-- The write loop does not come back from its handlers of exceptions. -/
lemma aborted_act {x : Extractor H} {a : Action} {d : Socket H} (hw : c.writer = .aborted)
    (hd : c.act x a = some d) : d.writer = .aborted := by
  have hne : c.writer ≠ .waiting := by simp [hw]
  cases acts_of_act hd with
  | read chunk hr => rw [Socket.readChunk_writer hne, hw]
  | handOver req hr => rw [Socket.handOver_writer hne, hw]
  | yielded hr => rw [Socket.extractNext_writer hne, hw]
  | resolve i f hi => exact hw
  | loopHead hc | reply i resp hc hi | written resp hc hq | next resp hc hq | flushed hc =>
    simp [hw] at hc
  | abort _ _ hc => simp [hw, WritePc.busy] at hc

lemma Reachable.act {x : Extractor H} {a : Action} {d : Socket H} (h : Reachable c)
    (hd : c.act x a = some d) : Reachable d where
  accounted := accounted_act h.accounted hd
  ordered hn := by
    have hc : c.writer ≠ .aborted := fun hw => hn (aborted_act hw hd)
    exact ordered_act (h.ordered hc).1 (h.ordered hc).2 hd hn

lemma reachable_run {x : Extractor H} {h : H} {acts : List Action}
    (hr : Steps.runs (Socket.act x) { handler := h } acts = some c) : Reachable c :=
  Steps.runs_rule (fun _ _ _ hI hd => Reachable.act hI hd) (reachable_init h) hr

/-- **The output of a connection.** Until the write loop aborts, the replies written are those
of the first requests, in the order of the requests and each once; a unit of the semaphore is
free, or stands for a request whose reply is not yet written, up to the one the read loop has
just taken and the one of the reply being flushed; a write loop that waits or has returned has
flushed all it has written; and one that has returned has answered every request. -/
theorem written_in_order {x : Extractor H} {h : H} {acts : List Action}
    (hr : Steps.runs (Socket.act x) { handler := h } acts = some c) (hw : c.writer ≠ .aborted) :
    (c.handed <+: c.extracted ∧ c.replies.length = c.handed.length ∧
      c.out.length ≤ c.replies.length ∧ c.out.map .value = c.replies.take c.out.length) ∧
    (c.handed.length - c.out.length ≤ maxInflight ∧
      c.handed.length - c.out.length =
        maxInflight - c.slots - c.reader.units - c.writer.units) ∧
    (c.writer = .waiting ∨ c.writer = .returned → c.respq = [] ∧ c.flushed = c.out.length) ∧
    (c.writer = .returned → c.handed = c.extracted ∧ c.out.length = c.extracted.length) := by
  obtain ⟨⟨hreq, hlen, hunits, _⟩, hord⟩ := reachable_run hr
  obtain ⟨ho, hwait⟩ := hord hw
  have hs : c.writer.surplus = 0 := by
    cases hc : c.writer <;> first | rfl | exact absurd hc hw
  have hq := ho.queued
  have hrep := ho.repaid
  refine ⟨⟨⟨_, hreq.symm⟩, hlen, by omega, ho.written⟩, ⟨by omega, by omega⟩, ?_, ?_⟩
  · rintro (hc | hc)
    · exact ⟨(hwait hc).1, ho.flushed (by simp [hc, WritePc.idle])⟩
    · exact ⟨(ho.returned hc).1, ho.flushed (by simp [hc, WritePc.idle])⟩
  · intro hc
    obtain ⟨hnil, he⟩ := ho.returned hc
    have hall : c.handed = c.extracted := by
      rw [hreq, ho.eof he]
      simp [ReadPc.request]
    simp only [hc, WritePc.taken, hnil, List.length_nil, hlen] at hq
    exact ⟨hall, by rw [← hall, ← hq]; rfl⟩

end

/-- A client that sends `QUIT`, up to the flush of its reply. -/
def quitting : List Action :=
  [.read (some (ascii "*1\r\n$4\r\nQUIT\r\n")), .readOn, .writeOn,
    .resolve 0 (.value (ascii "+OK\r\n")), .reply, .written true]

def hasQuit : List Action := quitting ++ [.flush true, .read none, .writeOn]

theorem quit_written_in_order :
    ∃ c, Steps.runs (Socket.act respHandler) { handler := {} } hasQuit = some c ∧
      c.writer = .returned ∧ c.out = [ascii "+OK\r\n"] ∧ c.out.length = c.extracted.length := by
  have hrun : (Steps.runs (Socket.act respHandler) { handler := {} } hasQuit).map
      (fun c => (c.writer, c.out)) = some (.returned, [ascii "+OK\r\n"]) := by decide +kernel
  obtain ⟨c, hc, hout⟩ := Option.map_eq_some_iff.mp hrun
  rw [Prod.mk.injEq] at hout
  have hn : c.writer ≠ .aborted := by simp [hout.1]
  exact ⟨c, hc, hout.1, hout.2, ((written_in_order hc hn).2.2.2 hout.1).2⟩

/-- The unit of a reply that is written and not yet flushed is still taken. -/
theorem flushing_holds_unit :
    (Steps.runs (Socket.act respHandler) { handler := {} } quitting).map (fun c =>
      (c.writer, c.handed.length - c.out.length, maxInflight - c.slots - c.reader.units)) =
      some (.flushing, 0, 1) := by
  decide +kernel

end ShunyaKV.Conn
