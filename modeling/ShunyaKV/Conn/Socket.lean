import ShunyaKV.Lib.Steps
import ShunyaKV.Resp.Extract

/-!
The two loops of a pipelined connection.

The read loop takes requests out of the buffer, gets a unit of the semaphore for each and
hands it over; the futures of the replies queue up. The write loop takes them from the front
of the queue, waits for each, writes its reply and gives the unit back. A loop runs from one
`co_await` to the next, and may be suspended at each of them.
-/

namespace ShunyaKV.Conn

open ShunyaKV.Lib ShunyaKV.Lib.Decimal ShunyaKV.Shard ShunyaKV.Resp

def maxInflight : ℕ := 1024

inductive Future
  | pending
  | value (resp : Bytes)
  | failed
  deriving DecidableEq

inductive ReadPc
  /-- at `in.read()` -/
  | reading
  /-- in the wait list of the semaphore -/
  | blocked (req : ParsedRequest)
  /-- at `_slots.wait(1)`, with its unit -/
  | granted (req : ParsedRequest)
  /-- at `maybe_yield` -/
  | yielding
  | done
  deriving DecidableEq

inductive WritePc
  /-- not yet started, or woken from `_cv.wait()` -/
  | ready
  /-- in `_cv.wait()` -/
  | waiting
  /-- in `with_timeout`, for the reply to the request numbered `i` -/
  | awaiting (i : ℕ)
  /-- in `out.write(resp)` -/
  | writing (resp : Bytes)
  /-- in `out.flush()` -/
  | flushing
  /-- returned at the end of the input -/
  | returned
  /-- returned from one of its handlers of exceptions -/
  | aborted
  deriving DecidableEq

/-- A handler with its own state and its version of `try_extract_request`. -/
structure Extractor (H : Type) where
  tryExtractRequest : H → Bytes → H × Bytes × Extracted

/-- A connection. The code keeps no record of the requests extracted and handed to
`handle_request`, of the replies written and of the units given back by the write loop; they
are kept here to state what the loops do. -/
structure Socket (H : Type) where
  handler : H
  buffer : Bytes := []
  drained : ℕ := 0
  /-- `_respq`, a future standing for the number of its request. -/
  respq : List ℕ := []
  slots : ℕ := maxInflight
  /-- A signal of `_cv` that found nobody waiting. -/
  signalled : Bool := false
  eof : Bool := false
  reader : ReadPc := .reading
  writer : WritePc := .ready
  /-- The futures of all requests handed over. -/
  replies : List Future := []
  extracted : List ParsedRequest := []
  handed : List ParsedRequest := []
  out : List Bytes := []
  /-- How many of them have been flushed. -/
  flushed : ℕ := 0
  released : ℕ := 0

namespace Socket

variable {H : Type}

def signal (c : Socket H) : Socket H :=
  match c.writer with
  | .waiting => { c with writer := .ready }
  | _ => { c with signalled := true }

lemma signal_eq (c : Socket H) : ∃ w b, c.signal = { c with writer := w, signalled := b } := by
  unfold signal
  split <;> exact ⟨_, _, rfl⟩

lemma signal_writer {c : Socket H} (hw : c.writer ≠ .waiting) : c.signal.writer = c.writer := by
  unfold signal
  split
  · rename_i h
    exact absurd h hw
  · rfl

/-- `_slots.signal(n)`: a read loop in the wait list gets its unit. -/
def signalSlots (c : Socket H) (n : ℕ) : Socket H :=
  match c.reader with
  | .blocked req =>
    if 0 < c.slots + n then { c with slots := c.slots + n - 1, reader := .granted req }
    else { c with slots := c.slots + n }
  | _ => { c with slots := c.slots + n }

def finishRead (c : Socket H) : Socket H := { c with eof := true, reader := .done }.signal

lemma finishRead_eq (c : Socket H) :
    ∃ w b, c.finishRead =
      { c with eof := true, reader := .done, writer := w, signalled := b } := signal_eq _

/-- The read loop up to the next request and its `_slots.wait(1)`, or to the next read. -/
def extractNext (x : Extractor H) (c : Socket H) : Socket H :=
  match x.tryExtractRequest c.handler c.buffer with
  | (handler, buffer, .nullopt) =>
    { c with handler := handler, buffer := buffer, reader := .reading }
  | (handler, buffer, .outOfRange) => { c with handler := handler, buffer := buffer }.finishRead
  | (handler, buffer, .request req) =>
    let c := { c with handler := handler, buffer := buffer, extracted := c.extracted ++ [req] }
    if 0 < c.slots then { c with slots := c.slots - 1, reader := .granted req }
    else { c with reader := .blocked req }

def queue (c : Socket H) (req : ParsedRequest) : Socket H :=
  let c : Socket H := { c with
    respq := c.respq ++ [c.replies.length]
    replies := c.replies ++ [.pending]
    handed := c.handed ++ [req]
    drained := c.drained + 1 }
  c.signal

lemma queue_eq (c : Socket H) (req : ParsedRequest) :
    ∃ w b, c.queue req =
      { c with
        respq := c.respq ++ [c.replies.length]
        replies := c.replies ++ [.pending]
        handed := c.handed ++ [req]
        drained := c.drained + 1
        writer := w
        signalled := b } := signal_eq _

/-- The read loop with its unit, up to its yield after every 256 requests. -/
def handOver (x : Extractor H) (c : Socket H) (req : ParsedRequest) : Socket H :=
  let c := c.queue req
  if c.drained % 256 = 0 then { c with reader := .yielding } else c.extractNext x

/-- A chunk arrives; an `sstring` has less than `2 ^ 32` bytes. -/
def readChunk (x : Extractor H) (c : Socket H) (chunk : Bytes) : Socket H :=
  if chunk = [] then c.finishRead
  else if (c.buffer ++ chunk).length < 2 ^ 32 then
    { c with buffer := c.buffer ++ chunk, drained := 0 }.extractNext x
  else c.finishRead

/-! A read loop wakes a write loop that waits, and no other. -/

section

variable {c : Socket H} (hw : c.writer ≠ .waiting)

include hw

lemma extractNext_writer (x : Extractor H) : (c.extractNext x).writer = c.writer := by
  unfold extractNext finishRead
  split
  · rfl
  · exact signal_writer hw
  · simp only
    split <;> rfl

lemma queue_writer (req : ParsedRequest) : (c.queue req).writer = c.writer :=
  signal_writer hw

lemma handOver_writer (x : Extractor H) (req : ParsedRequest) :
    (c.handOver x req).writer = c.writer := by
  have hq := queue_writer hw req
  unfold handOver
  simp only
  split
  · exact hq
  · rw [extractNext_writer (hq ▸ hw), hq]

lemma readChunk_writer (x : Extractor H) (chunk : Bytes) :
    (c.readChunk x chunk).writer = c.writer := by
  have hf : c.finishRead.writer = c.writer := signal_writer hw
  unfold readChunk
  split
  · exact hf
  · split
    · exact (extractNext_writer (by exact hw) x).trans rfl
    · exact hf

end

/-- The write loop from its head to the next suspension. -/
def loopHead (c : Socket H) : Socket H :=
  match c.respq with
  | i :: respq => { c with respq := respq, writer := .awaiting i }
  | [] =>
    if c.eof then { c with writer := .returned }
    else if c.signalled then { c with signalled := false, writer := .ready }
    else { c with writer := .waiting }

/-- The handlers of exceptions of the write loop; nobody waits for the broadcast. -/
def abort (c : Socket H) : Socket H :=
  { c with eof := true, signalled := false, writer := .aborted }.signalSlots maxInflight

def release (c : Socket H) : Socket H :=
  ({ c with released := c.released + 1 }.signalSlots 1).loopHead

end Socket

inductive Action
  /-- `in.read()` gives a chunk, an empty one at the end of the input, or throws -/
  | read (chunk : Option Bytes)
  /-- the read loop goes on, with its unit or after its yield -/
  | readOn
  /-- the future of a reply resolves -/
  | resolve (i : ℕ) (f : Future)
  /-- the write loop goes on from `_cv.wait()`, or starts -/
  | writeOn
  /-- the write loop goes on with the reply, or its exception -/
  | reply
  | timeout
  /-- `out.write` is done, or has failed -/
  | written (ok : Bool)
  /-- `out.flush` is done, or has failed -/
  | flush (ok : Bool)

namespace Socket

variable {H : Type}

def act (x : Extractor H) (c : Socket H) : Action → Option (Socket H)
  | .read chunk =>
    match c.reader with
    | .reading => some (c.readChunk x (chunk.getD []))
    | _ => none
  | .readOn =>
    match c.reader with
    | .granted req => some (c.handOver x req)
    | .yielding => some (c.extractNext x)
    | _ => none
  | .resolve i f =>
    if c.replies[i]? = some .pending then some { c with replies := c.replies.set i f } else none
  | .writeOn => if c.writer = .ready then some c.loopHead else none
  | .reply =>
    match c.writer with
    | .awaiting i =>
      match c.replies[i]? with
      | some (.value resp) => some { c with writer := .writing resp }
      | some .failed => some c.abort
      | _ => none
    | _ => none
  | .timeout =>
    match c.writer with
    | .awaiting i => if c.replies[i]? = some .pending then some c.abort else none
    | _ => none
  | .written ok =>
    match c.writer with
    | .writing resp =>
      if ok then
        let c := { c with out := c.out ++ [resp] }
        some (if c.respq = [] then { c with writer := .flushing } else c.release)
      else some c.abort
    | _ => none
  | .flush ok =>
    match c.writer with
    | .flushing => some (if ok then { c with flushed := c.out.length }.release else c.abort)
    | _ => none

end Socket

/-- Whether the write loop has a future of the queue in hand. -/
def WritePc.busy : WritePc → Prop
  | .awaiting _ => True
  | .writing _ => True
  | .flushing => True
  | _ => False

inductive Acts {H : Type} (x : Extractor H) (c : Socket H) : Action → Socket H → Prop
  | read (chunk : Option Bytes) (hr : c.reader = .reading) :
    Acts x c (.read chunk) (c.readChunk x (chunk.getD []))
  | handOver (req : ParsedRequest) (hr : c.reader = .granted req) :
    Acts x c .readOn (c.handOver x req)
  | yielded (hr : c.reader = .yielding) : Acts x c .readOn (c.extractNext x)
  | resolve (i : ℕ) (f : Future) (hi : c.replies[i]? = some .pending) :
    Acts x c (.resolve i f) { c with replies := c.replies.set i f }
  | loopHead (hw : c.writer = .ready) : Acts x c .writeOn c.loopHead
  | reply (i : ℕ) (resp : Bytes) (hw : c.writer = .awaiting i)
    (hi : c.replies[i]? = some (.value resp)) : Acts x c .reply { c with writer := .writing resp }
  | written (resp : Bytes) (hw : c.writer = .writing resp) (hq : c.respq = []) :
    Acts x c (.written true) { c with out := c.out ++ [resp], writer := .flushing }
  | next (resp : Bytes) (hw : c.writer = .writing resp) (hq : c.respq ≠ []) :
    Acts x c (.written true) { c with out := c.out ++ [resp] }.release
  | flushed (hw : c.writer = .flushing) :
    Acts x c (.flush true) { c with flushed := c.out.length }.release
  | abort (a : Action) (ha : ∀ chunk, a ≠ .read chunk) (hw : c.writer.busy) : Acts x c a c.abort

lemma acts_of_act {H : Type} {x : Extractor H} {c d : Socket H} {a : Action}
    (h : c.act x a = some d) : Acts x c a d := by
  unfold Socket.act at h
  split at h
  case h_1 chunk =>
    split at h <;> cases h
    exact .read chunk (by assumption)
  case h_2 =>
    split at h <;> cases h
    · exact .handOver _ (by assumption)
    · exact .yielded (by assumption)
  case h_3 i f =>
    split at h <;> cases h
    exact .resolve i f (by assumption)
  case h_4 =>
    split at h <;> cases h
    exact .loopHead (by assumption)
  case h_5 =>
    split at h
    · rename_i hw
      split at h <;> cases h
      · exact .reply _ _ hw (by assumption)
      · exact .abort _ (by simp) (by simp [hw, WritePc.busy])
    · cases h
  case h_6 =>
    split at h
    · rename_i hw
      split at h <;> cases h
      exact .abort _ (by simp) (by simp [hw, WritePc.busy])
    · cases h
  case h_7 ok =>
    split at h
    · rename_i hw
      cases ok
      · cases h
        exact .abort _ (by simp) (by simp [hw, WritePc.busy])
      · simp only [if_true, Option.some.injEq] at h
        subst h
        split
        · exact .written _ hw (by assumption)
        · exact .next _ hw (by assumption)
    · cases h
  case h_8 ok =>
    split at h
    · rename_i hw
      cases ok
      · cases h
        exact .abort _ (by simp) (by simp [hw, WritePc.busy])
      · cases h
        exact .flushed hw
    · cases h

def respHandler : Extractor Processor := ⟨Resp.tryExtractRequest⟩

/-- The line protocol of `PipelinedSocketHandler` itself. -/
def lineHandler : Extractor Unit where
  tryExtractRequest _ buf :=
    let req := buf.takeWhile (· ≠ 10)
    if req.length = buf.length then ((), buf, .nullopt)
    else
      let line := if req.getLast? = some 13 then req.dropLast else req
      ((), buf.drop (req.length + 1), .request ⟨line, []⟩)

end ShunyaKV.Conn
