import ShunyaKV.Conn.Pipelined
import ShunyaKV.Resp.Frames

/-!
What a connection has been sent, and the requests it has got out of it.

The read loop appends what it reads to its buffer and takes requests from the front. Whatever
the write loop does meanwhile, the requests are those of the bytes received, in the order in
which the extractor finds them.
-/

namespace ShunyaKV.Conn

open ShunyaKV.Lib ShunyaKV.Lib.Decimal ShunyaKV.Lib.Words ShunyaKV.Shard ShunyaKV.Resp

def Action.input : Action → Bytes
  | .read (some chunk) => chunk
  | _ => []

def received (acts : List Action) : Bytes := acts.flatMap Action.input

/-- The extractor has found no request in what is left: it has just been asked for one, or nothing
has come yet. -/
def Rested {H : Type} (x : Extractor H) (h₀ : H) (w : Bytes) (rs : List ParsedRequest) (h : H)
    (buf : Bytes) : Prop :=
  (w = [] ∧ rs = [] ∧ h = h₀ ∧ buf = []) ∨
    ∃ h' buf', Drawn x.tryExtractRequest h₀ sizeLimit w rs h' buf' ∧
      x.tryExtractRequest h' buf' = (h, buf, .nullopt)

/-- The read loop has ended with an exception: the buffer would have become too long, or the
extractor has thrown. -/
def Broken {H : Type} (x : Extractor H) (h₀ : H) (sent w : Bytes) (rs : List ParsedRequest)
    (buf : Bytes) : Prop :=
  (∃ chunk, w ++ chunk <+: sent ∧ 2 ^ 32 ≤ (buf ++ chunk).length) ∨
    ∃ h buf' h', Drawn x.tryExtractRequest h₀ sizeLimit w rs h buf' ∧
      x.tryExtractRequest h buf' = (h', buf, .outOfRange)

/-- Everything received has gone to the extractor, up to an exception; and nothing is left in the
buffer for it where the read loop waits for more, or has come to its end. -/
def Reads {H : Type} (x : Extractor H) (h₀ : H) (sent : Bytes) (c : Socket H) : Prop :=
  ∃ w, Drawn x.tryExtractRequest h₀ sizeLimit w c.extracted c.handler c.buffer ∧ w <+: sent ∧
    (c.reader = .done ∧ Broken x h₀ sent w c.extracted c.buffer ∨
      w = sent ∧ (c.reader = .reading ∨ c.reader = .done →
        Rested x h₀ w c.extracted c.handler c.buffer))

section

variable {H : Type} {x : Extractor H} {h₀ : H} {sent : Bytes} {c d : Socket H}

/-- The write loop changes nothing the read loop reads from, and at most gives it a unit. -/
lemma Reads.congr (h : Reads x h₀ sent c) (hext : d.extracted = c.extracted)
    (hhandler : d.handler = c.handler) (hbuffer : d.buffer = c.buffer)
    (hreader : d.reader = c.reader ∨
      c.reader ≠ .done ∧ d.reader ≠ .reading ∧ d.reader ≠ .done) : Reads x h₀ sent d := by
  obtain ⟨w, hw, hle, hstatus⟩ := h
  refine ⟨w, by rwa [hext, hhandler, hbuffer], hle, ?_⟩
  rw [hext, hhandler, hbuffer]
  rcases hreader with hreader | ⟨hc, hd, hd'⟩
  · rwa [hreader]
  · exact .inr ⟨(hstatus.resolve_left fun h => hc h.1).1, fun h => (h.elim hd hd').elim⟩

lemma Reads.drawn (h : Reads x h₀ sent c) (hr : c.reader ≠ .done) :
    Drawn x.tryExtractRequest h₀ sizeLimit sent c.extracted c.handler c.buffer := by
  obtain ⟨w, hw, -, hstatus⟩ := h
  obtain ⟨rfl, -⟩ := hstatus.resolve_left fun h => hr h.1
  exact hw

lemma reads_extractNext
    (h : Drawn x.tryExtractRequest h₀ sizeLimit sent c.extracted c.handler c.buffer) :
    Reads x h₀ sent (c.extractNext x) := by
  have hnone : c.extracted ++ [] = c.extracted := List.append_nil _
  unfold Socket.extractNext
  split
  · next handler buffer hcall =>
    refine ⟨sent, hnone ▸ h.call hcall, List.prefix_rfl, .inr ⟨rfl, fun _ => .inr ?_⟩⟩
    exact ⟨c.handler, c.buffer, h, hcall⟩
  · next handler buffer hcall =>
    obtain ⟨wr, b, hfin⟩ := Socket.finishRead_eq { c with handler := handler, buffer := buffer }
    rw [hfin]
    exact ⟨sent, hnone ▸ h.call hcall, List.prefix_rfl,
      .inl ⟨rfl, .inr ⟨c.handler, c.buffer, handler, h, hcall⟩⟩⟩
  · next handler buffer req hcall =>
    dsimp only
    split
    · exact ⟨sent, h.call hcall, List.prefix_rfl, .inr ⟨rfl, by simp⟩⟩
    · exact ⟨sent, h.call hcall, List.prefix_rfl, .inr ⟨rfl, by simp⟩⟩

lemma Reads.handOver (h : Reads x h₀ sent c) {req : ParsedRequest} (hr : c.reader = .granted req) :
    Reads x h₀ sent (c.handOver x req) := by
  have hdrawn := h.drawn (by simp [hr])
  obtain ⟨w, b, hq⟩ := Socket.queue_eq c req
  unfold Socket.handOver
  rw [hq]
  dsimp only
  split
  · exact ⟨sent, hdrawn, List.prefix_rfl, .inr ⟨rfl, by simp⟩⟩
  · exact reads_extractNext hdrawn

lemma Reads.readChunk (h : Reads x h₀ sent c) (hr : c.reader = .reading) (chunk : Bytes) :
    Reads x h₀ (sent ++ chunk) (c.readChunk x chunk) := by
  obtain ⟨w, hw, -, hstatus⟩ := h
  obtain ⟨rfl, hrest⟩ := hstatus.resolve_left fun h => by simp [hr] at h
  obtain ⟨wr, b, hfin⟩ := Socket.finishRead_eq c
  unfold Socket.readChunk
  split
  · next hnil =>
    rw [hnil, List.append_nil, hfin]
    exact ⟨w, hw, List.prefix_rfl, .inr ⟨rfl, fun _ => hrest (.inl hr)⟩⟩
  · split
    · next hlen => exact reads_extractNext (hw.append chunk (by simpa using hlen))
    · next hlen =>
      rw [hfin]
      exact ⟨w, hw, List.prefix_append _ _,
        .inl ⟨rfl, .inl ⟨chunk, List.prefix_rfl, Nat.le_of_not_lt hlen⟩⟩⟩

lemma Reads.signalSlots (h : Reads x h₀ sent c) (n : ℕ) : Reads x h₀ sent (c.signalSlots n) := by
  unfold Socket.signalSlots
  split
  · next hr =>
    split
    · exact h.congr rfl rfl rfl (.inr ⟨by simp [hr], by simp, by simp⟩)
    · exact h.congr rfl rfl rfl (.inl rfl)
  · exact h.congr rfl rfl rfl (.inl rfl)

lemma Reads.loopHead (h : Reads x h₀ sent c) : Reads x h₀ sent c.loopHead := by
  unfold Socket.loopHead
  repeat' split
  all_goals exact h.congr rfl rfl rfl (.inl rfl)

lemma Reads.release (h : Reads x h₀ sent c) : Reads x h₀ sent c.release := by
  have h' : Reads x h₀ sent { c with released := c.released + 1 } := h.congr rfl rfl rfl (.inl rfl)
  exact (h'.signalSlots 1).loopHead

lemma Reads.abort (h : Reads x h₀ sent c) : Reads x h₀ sent c.abort := by
  have h' : Reads x h₀ sent { c with eof := true, signalled := false, writer := .aborted } :=
    h.congr rfl rfl rfl (.inl rfl)
  exact h'.signalSlots maxInflight

/-- **One action.** -/
lemma Reads.act {a : Action} (h : Reads x h₀ sent c) (hd : c.act x a = some d) :
    Reads x h₀ (sent ++ a.input) d := by
  have hother {b : Action} (hb : ∀ chunk, b ≠ .read chunk) : sent ++ b.input = sent := by
    cases b with
    | read chunk => exact absurd rfl (hb chunk)
    | _ => exact List.append_nil sent
  cases acts_of_act hd with
  | read chunk hr =>
    cases chunk with
    | none => exact h.readChunk hr []
    | some chunk => exact h.readChunk hr chunk
  | handOver req hr =>
    rw [hother (by simp)]
    exact h.handOver hr
  | yielded hr =>
    rw [hother (by simp)]
    exact reads_extractNext (h.drawn (by simp [hr]))
  | resolve i f hi =>
    rw [hother (by simp)]
    exact h.congr rfl rfl rfl (.inl rfl)
  | loopHead hw =>
    rw [hother (by simp)]
    exact h.loopHead
  | reply i resp hw hi =>
    rw [hother (by simp)]
    exact h.congr rfl rfl rfl (.inl rfl)
  | written resp hw hq =>
    rw [hother (by simp)]
    exact h.congr rfl rfl rfl (.inl rfl)
  | next resp hw hq =>
    rw [hother (by simp)]
    have h' : Reads x h₀ sent { c with out := c.out ++ [resp] } := h.congr rfl rfl rfl (.inl rfl)
    exact h'.release
  | flushed hw =>
    rw [hother (by simp)]
    have h' : Reads x h₀ sent { c with flushed := c.out.length } := h.congr rfl rfl rfl (.inl rfl)
    exact h'.release
  | abort _ ha hw =>
    rw [hother ha]
    exact h.abort

lemma reads_init (x : Extractor H) (h₀ : H) : Reads x h₀ [] ({ handler := h₀ } : Socket H) :=
  ⟨[], .start, List.prefix_rfl, .inr ⟨rfl, fun _ => .inl ⟨rfl, rfl, rfl, rfl⟩⟩⟩

/-- **A whole run.** -/
lemma reads_runs {acts : List Action}
    (hr : Steps.runs (Socket.act x) { handler := h₀ } acts = some c) :
    Reads x h₀ (received acts) c := by
  refine Steps.runs_history (I := fun acts c => Reads x h₀ (received acts) c) ?_
    (reads_init x h₀) hr
  intro l s a t hI ha
  have happ : received (l ++ [a]) = received l ++ a.input := by simp [received]
  rw [happ]
  exact hI.act ha

/-! ### What is handed over -/

def Socket.record (c : Socket H) : List ParsedRequest × List Future := (c.handed, c.replies)

@[simp] lemma signal_record (c : Socket H) : c.signal.record = c.record := by
  obtain ⟨w, b, h⟩ := c.signal_eq
  rw [h]
  rfl

lemma signalSlots_record (c : Socket H) (n : ℕ) : (c.signalSlots n).record = c.record := by
  unfold Socket.signalSlots
  repeat' split
  all_goals rfl

lemma loopHead_record (c : Socket H) : c.loopHead.record = c.record := by
  unfold Socket.loopHead
  repeat' split
  all_goals rfl

lemma release_record (c : Socket H) : c.release.record = c.record := by
  rw [Socket.release, loopHead_record, signalSlots_record]
  rfl

lemma abort_record (c : Socket H) : c.abort.record = c.record := by
  rw [Socket.abort, signalSlots_record]
  rfl

lemma finishRead_record (c : Socket H) : c.finishRead.record = c.record := by
  rw [Socket.finishRead, signal_record]
  rfl

lemma extractNext_record (c : Socket H) : (c.extractNext x).record = c.record := by
  unfold Socket.extractNext
  split
  · rfl
  · exact finishRead_record _
  · dsimp only
    split <;> rfl

lemma readChunk_record (c : Socket H) (chunk : Bytes) :
    (c.readChunk x chunk).record = c.record := by
  unfold Socket.readChunk
  split
  · exact finishRead_record c
  · split
    · exact extractNext_record _
    · exact finishRead_record c

lemma handOver_record (c : Socket H) (req : ParsedRequest) :
    (c.handOver x req).record = (c.handed ++ [req], c.replies ++ [.pending]) := by
  have hq : (c.queue req).record = (c.handed ++ [req], c.replies ++ [.pending]) := by
    rw [Socket.queue, signal_record]
    rfl
  unfold Socket.handOver
  dsimp only
  split
  · exact hq
  · rw [extractNext_record, hq]

lemma act_resolve {i : ℕ} {f : Future} (h : c.act x (.resolve i f) = some d) :
    c.replies[i]? = some .pending ∧ d = { c with replies := c.replies.set i f } := by
  simp only [Socket.act] at h
  split at h
  · next hi => exact ⟨hi, (Option.some.inj h).symm⟩
  · cases h

/-- What an action does to the record: nothing, or it hands over a request, or it sets a
future. -/
inductive Records (c d : Socket H) : Action → Prop
  | none {a : Action} (h : d.record = c.record) : Records c d a
  | handOver {req : ParsedRequest} (hr : c.reader = .granted req)
      (h : d.record = (c.handed ++ [req], c.replies ++ [.pending])) : Records c d .readOn
  | resolve {i : ℕ} {f : Future} (hi : c.replies[i]? = some .pending)
      (h : d = { c with replies := c.replies.set i f }) : Records c d (.resolve i f)

lemma records_act {a : Action} (hd : c.act x a = some d) : Records c d a := by
  cases acts_of_act hd with
  | read chunk hr => exact .none (readChunk_record c _)
  | handOver req hr => exact .handOver hr (handOver_record c req)
  | yielded hr => exact .none (extractNext_record c)
  | resolve i f hi => exact .resolve hi rfl
  | loopHead hw => exact .none (loopHead_record c)
  | reply i resp hw hi => exact .none rfl
  | written resp hw hq => exact .none rfl
  | next resp hw hq => exact .none (release_record _)
  | flushed hw => exact .none (release_record _)
  | abort _ _ hw => exact .none (abort_record c)

end

end ShunyaKV.Conn

/-! ### Commands -/

namespace ShunyaKV.Resp

open ShunyaKV.Shard

lemma Fed.length_le {w buf : Bytes} {rs : List ParsedRequest} {p : Processor}
    (h : Fed sizeLimit w rs p buf) : buf.length ≤ w.length := by
  induction h with
  | start => exact Nat.le_refl 0
  | append _ chunk _ ih =>
    simp only [List.length_append]
    omega
  | call hfed hcall ih =>
    obtain ⟨hbuf, -, pl, a, hrep, -⟩ := Fed.found hfed
    obtain ⟨pl', a', p', buf', -, hlen, hend⟩ :=
      hrep.call (I := fun _ _ => True) (fun _ _ _ _ _ _ => trivial) trivial hbuf
    rcases hend with ⟨-, -, hcall'⟩ | ⟨o, a'', -, -, hcall'⟩ <;> cases hcall.symm.trans hcall' <;>
      omega

/-- A processor that is fed commands has returned the first of them, and has the others before
it. -/
lemma Fed.pending {w buf : Bytes} {rs : List ParsedRequest} {p : Processor}
    (h : Fed sizeLimit w rs p buf) {cmds : List (List Bytes)} (hcmds : ∀ c ∈ cmds, Command c)
    {rest : Bytes}
    (hw : w ++ rest = cmds.flatMap writeArrayBulk) :
    ∃ out todo, cmds = out ++ todo ∧ rs = out.map parsed ∧ Pending buf rest p todo := by
  induction h generalizing rest with
  | start => exact ⟨[], cmds, rfl, rfl, .between rfl (Nat.le_refl 0) (by simpa using hw)⟩
  | append _ chunk _ ih =>
    obtain ⟨out, todo, hcs, hrs, hpend⟩ := ih (by rw [← hw, List.append_assoc])
    exact ⟨out, todo, hcs, hrs, hpend.append⟩
  | call hfed hcall ih =>
    obtain ⟨out, todo, rfl, rfl, hpend⟩ := ih hw
    obtain ⟨p', buf', r, hcall', hret⟩ :=
      hpend.call (fun c hc => hcmds c (by simp [hc])) (Fed.found hfed).1
    cases hcall.symm.trans hcall'
    cases hret with
    | nullopt hpend' _ => exact ⟨out, todo, rfl, List.append_nil _, hpend'⟩
    | @request c _ _ _ hcons hpend' _ _ =>
      subst hcons
      exact ⟨out ++ [c], _, by simp, by simp [Extracted.requests, parsed], hpend'⟩

/-- Its next call does not throw, and returns a command unless it has returned all or bytes are to
come. -/
lemma Fed.next {w rest buf buf' : Bytes} {rs : List ParsedRequest} {p p' : Processor}
    {r : Extracted} (h : Fed sizeLimit w rs p buf) {cmds : List (List Bytes)}
    (hcmds : ∀ c ∈ cmds, Command c) (hw : w ++ rest = cmds.flatMap writeArrayBulk)
    (hcall : tryExtractRequest p buf = (p', buf', r)) :
    r ≠ .outOfRange ∧ (r = .nullopt → rest = [] → rs = cmds.map parsed) := by
  obtain ⟨out, todo, rfl, rfl, hpend⟩ := h.pending hcmds hw
  obtain ⟨q, buf₁, r₁, hcall', hret⟩ :=
    hpend.call (fun c hc => hcmds c (by simp [hc])) h.found.1
  cases hcall.symm.trans hcall'
  cases hret with
  | nullopt _ hrest =>
    refine ⟨nofun, fun _ hnil => ?_⟩
    rw [hrest hnil, List.append_nil]
  | request => exact ⟨nofun, nofun⟩

end ShunyaKV.Resp

namespace ShunyaKV.Conn

open ShunyaKV.Lib ShunyaKV.Lib.Decimal ShunyaKV.Lib.Words ShunyaKV.Shard ShunyaKV.Resp

/-- **A connection that is sent commands gets the first of them**, and all of them once it has
read all without an exception. -/
lemma Reads.commands {sent : Bytes} {c : Socket Processor} (h : Reads respHandler {} sent c)
    {cmds : List (List Bytes)} (hcmds : ∀ cmd ∈ cmds, Command cmd)
    (hsent : sent <+: cmds.flatMap writeArrayBulk) :
    ∃ out todo, cmds = out ++ todo ∧ c.extracted = out.map parsed ∧
      (c.reader = .done → sent = cmds.flatMap writeArrayBulk → sent.length < 2 ^ 32 →
        todo = []) := by
  obtain ⟨w, hdrawn, ⟨unread, hw⟩, hstatus⟩ := h
  obtain ⟨rest, hrest⟩ := hsent
  obtain ⟨out, todo, rfl, hext, hpend⟩ :=
    Fed.pending hdrawn hcmds (by rw [← hrest, ← hw, List.append_assoc])
  refine ⟨out, todo, rfl, hext, fun hdone hall hlen => ?_⟩
  obtain rfl : rest = [] := List.append_cancel_left (hrest.trans (by simp [hall]))
  rw [List.append_nil] at hrest
  have hcmds' := hw.trans hrest
  suffices hmap : c.extracted = (out ++ todo).map parsed by
    have hlength := congrArg List.length (hext.symm.trans hmap)
    simpa using hlength
  rcases hstatus with ⟨-, hbroken⟩ | ⟨rfl, hrested⟩
  · exfalso
    rcases hbroken with ⟨chunk, hchunk, hbig⟩ | ⟨p, buf, p', hd, hcall⟩
    · have hle := hchunk.length_le
      have hbuf := Fed.length_le hdrawn
      simp only [List.length_append] at hle hbig
      omega
    · exact (Fed.next hd hcmds hcmds' hcall).1 rfl
  · obtain rfl : unread = [] := List.append_cancel_left (hw.trans (List.append_nil w).symm)
    rcases hrested (.inr hdone) with ⟨rfl, hnone, -, -⟩ | ⟨p, buf, hd, hcall⟩
    · rw [hnone]
      cases hcs : out ++ todo with
      | nil => rfl
      | cons cmd cmds => simp [hcs, writeArrayBulk, ascii] at hrest
    · exact (Fed.next hd hcmds hcmds' hcall).2 rfl rfl

end ShunyaKV.Conn
