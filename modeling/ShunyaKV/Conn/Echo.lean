import ShunyaKV.Conn.Input

/-!
A connection that answers each request by itself, and the echo of the line protocol.
-/

namespace ShunyaKV.Conn

open ShunyaKV.Lib ShunyaKV.Lib.Words ShunyaKV.Shard ShunyaKV.Resp

section

variable {H : Type}

/-- A connection whose `handle_request` resolves to `reply`, whenever that is. -/
def Socket.serve (x : Extractor H) (reply : ParsedRequest → Bytes) (c : Socket H) (a : Action) :
    Option (Socket H) :=
  match a with
  | .resolve i f =>
    if (c.handed[i]?).map (fun req => Future.value (reply req)) = some f then c.act x a else none
  | _ => c.act x a

variable {x : Extractor H} {reply : ParsedRequest → Bytes} {c d : Socket H}

lemma act_of_serve (c : Socket H) (a : Action) (d : Socket H) (h : c.serve x reply a = some d) :
    c.act x a = some d := by
  unfold Socket.serve at h
  split at h
  · split at h
    · exact h
    · cases h
  · exact h

lemma serve_resolve {i : ℕ} {f : Future} (h : c.serve x reply (.resolve i f) = some d) :
    ∃ req, c.handed[i]? = some req ∧ f = .value (reply req) := by
  unfold Socket.serve at h
  dsimp only at h
  split at h
  · next hf =>
    obtain ⟨req, hreq, hval⟩ := Option.map_eq_some_iff.mp hf
    exact ⟨req, hreq, hval.symm⟩
  · cases h

/-- The futures that have a value have the one of their requests. -/
def Serves (reply : ParsedRequest → Bytes) (c : Socket H) : Prop :=
  ∀ (i : ℕ) (resp : Bytes), c.replies[i]? = some (.value resp) →
    ∃ req, c.handed[i]? = some req ∧ resp = reply req

lemma Serves.act {a : Action} (h : Serves reply c) (hd : c.serve x reply a = some d) :
    Serves reply d := by
  cases records_act (act_of_serve c a d hd) with
  | none hrec =>
    obtain ⟨hhanded, hreplies⟩ := Prod.mk.inj hrec
    rwa [Serves, hhanded, hreplies]
  | @handOver req hr hrec =>
    obtain ⟨hhanded, hreplies⟩ := Prod.mk.inj hrec
    intro i resp hi
    rw [hreplies, List.getElem?_append] at hi
    split at hi
    · obtain ⟨req', hreq, hresp⟩ := h i resp hi
      refine ⟨req', ?_, hresp⟩
      rw [hhanded, List.getElem?_append_left (List.getElem?_eq_some_iff.mp hreq).1, hreq]
    · simp [List.getElem?_singleton] at hi
  | @resolve i f hi hrec =>
    subst hrec
    obtain ⟨req, hreq, rfl⟩ := serve_resolve hd
    intro j resp hj
    by_cases hij : i = j
    · subst hij
      obtain ⟨hlt, -⟩ := List.getElem?_eq_some_iff.mp hi
      rw [List.getElem?_set_self hlt, Option.some.injEq, Future.value.injEq] at hj
      exact ⟨req, hreq, hj.symm⟩
    · rw [List.getElem?_set_ne hij] at hj
      exact h j resp hj

/-- **The replies written are those of the first requests found in the input.** -/
lemma serve_out {h : H} {acts : List Action}
    (hr : Steps.runs (Socket.serve x reply) { handler := h } acts = some c)
    (hw : c.writer ≠ .aborted) :
    c.out <+: c.extracted.map reply ∧ (c.writer = .returned → c.out = c.extracted.map reply) := by
  have hserves : Serves reply c :=
    Steps.runs_rule (fun _ _ _ hI hd => Serves.act hI hd) (by simp [Serves]) hr
  obtain ⟨hacc, hord⟩ := reachable_run (Steps.runs_mono act_of_serve hr)
  obtain ⟨hord, -⟩ := hord hw
  have hout : c.out = (c.handed.take c.out.length).map reply := by
    refine List.ext_getElem? fun i => ?_
    have hwritten := congrArg (·[i]?) hord.written
    simp only [List.getElem?_map, List.getElem?_take] at hwritten ⊢
    cases hi : c.out[i]? with
    | none =>
      have hge := List.getElem?_eq_none_iff.mp hi
      rw [if_neg (by omega)]
      rfl
    | some resp =>
      have hlt := (List.getElem?_eq_some_iff.mp hi).1
      rw [hi, if_pos hlt] at hwritten
      obtain ⟨req, hreq, rfl⟩ := hserves i resp hwritten.symm
      rw [if_pos hlt, hreq]
      rfl
  have hpre : (c.handed.take c.out.length).map reply <+: c.extracted.map reply := by
    rw [hacc.requests]
    exact ((List.take_prefix _ _).trans (List.prefix_append _ _)).map reply
  refine ⟨hout ▸ hpre, fun hret => ?_⟩
  obtain ⟨hnil, he⟩ := hord.returned hret
  have hall : c.handed = c.extracted := by
    rw [hacc.requests, hord.eof he]
    simp [ReadPc.request]
  have hlen : c.out.length = c.handed.length := by
    have hqueued := hord.queued
    simpa [hret, WritePc.taken, hnil, hacc.replies] using hqueued
  rwa [hlen, List.take_length, hall] at hout

end

/-! ### Lines -/

namespace LineEchoHandler

def handleRequest (req : ParsedRequest) : Bytes := req.frame ++ [10]

end LineEchoHandler

/-- A line without the carriage return at its end. -/
def chomp (line : Bytes) : Bytes := if line.getLast? = some 13 then line.dropLast else line

/-- One call of `try_extract_request` for lines: the first line, or nothing where there is none. -/
lemma lineHandler_cases (u : Unit) (buf : Bytes) :
    (10 ∉ buf ∧ lineHandler.tryExtractRequest u buf = ((), buf, .nullopt)) ∨
      ∃ line rest, 10 ∉ line ∧ buf = line ++ 10 :: rest ∧
        lineHandler.tryExtractRequest u buf = ((), rest, .request ⟨chomp line, []⟩) := by
  by_cases hbuf : 10 ∈ buf
  · right
    obtain ⟨line, rest, rfl, hline⟩ := List.eq_append_cons_of_mem hbuf
    refine ⟨line, rest, hline, rfl, ?_⟩
    simp only [lineHandler]
    rw [takeWhile_ne_append hline, if_neg (by simp), List.drop_append]
    simp [chomp]
  · left
    refine ⟨hbuf, ?_⟩
    simp only [lineHandler]
    rw [takeWhile_ne_self hbuf, if_pos rfl]

lemma lines_of_drawn {w buf : Bytes} {rs : List ParsedRequest} {u : Unit}
    (h : Drawn lineHandler.tryExtractRequest () sizeLimit w rs u buf) :
    ∃ ls : List Bytes, (∀ l ∈ ls, 10 ∉ l) ∧ w = ls.flatMap (· ++ [10]) ++ buf ∧
      rs = ls.map fun l => ⟨chomp l, []⟩ := by
  induction h with
  | start => exact ⟨[], by simp, rfl, rfl⟩
  | append _ chunk _ ih =>
    obtain ⟨ls, hls, rfl, rfl⟩ := ih
    exact ⟨ls, hls, by simp, rfl⟩
  | @call _ buf _ _ u _ _ _ hcall ih =>
    obtain ⟨ls, hls, rfl, rfl⟩ := ih
    rcases lineHandler_cases u buf with ⟨-, hcall'⟩ | ⟨line, rest, hline, rfl, hcall'⟩
    · cases hcall.symm.trans hcall'
      exact ⟨ls, hls, rfl, by simp [Extracted.requests]⟩
    · cases hcall.symm.trans hcall'
      refine ⟨ls ++ [line], ?_, by simp, by simp [Extracted.requests]⟩
      intro l hl
      rcases List.mem_append.mp hl with hl | hl
      · exact hls l hl
      · rwa [List.mem_singleton.mp hl]

lemma Rested.no_line {w buf : Bytes} {rs : List ParsedRequest} {u : Unit}
    (h : Rested lineHandler () w rs u buf) : 10 ∉ buf := by
  rcases h with ⟨-, -, -, rfl⟩ | ⟨u', buf', -, hcall⟩
  · simp
  · rcases lineHandler_cases u' buf' with ⟨hbuf, hcall'⟩ | ⟨line, rest, -, -, hcall'⟩
    · cases hcall.symm.trans hcall'
      exact hbuf
    · cases hcall.symm.trans hcall'

/-- **The echo of a connection.** However its input is cut into chunks and its two loops
alternate, a `LineEchoHandler` that has not aborted has written back the first lines it was sent,
in their order and each once, with `"\n"` for `"\r\n"`; and where its write loop has returned
and less than `2 ^ 32` bytes were sent, all of them but a last line without an end. -/
theorem lines_echoed {acts : List Action} {c : Socket Unit}
    (hr : Steps.runs (Socket.serve lineHandler LineEchoHandler.handleRequest) { handler := () }
      acts = some c)
    (hw : c.writer ≠ .aborted) (ls : List Bytes) (tail : Bytes) (hls : ∀ l ∈ ls, 10 ∉ l)
    (htail : 10 ∉ tail) (hsent : received acts = ls.flatMap (· ++ [10]) ++ tail) :
    c.out <+: ls.map (fun l => chomp l ++ [10]) ∧
      (c.writer = .returned → (received acts).length < 2 ^ 32 →
        c.out = ls.map fun l => chomp l ++ [10]) := by
  have hact := Steps.runs_mono act_of_serve hr
  obtain ⟨hout, hall⟩ := serve_out hr hw
  obtain ⟨w, hdrawn, ⟨rest, hw'⟩, hstatus⟩ := reads_runs hact
  obtain ⟨found, hfound, rfl, hext⟩ := lines_of_drawn hdrawn
  have hmap : c.extracted.map LineEchoHandler.handleRequest =
      found.map fun l => chomp l ++ [10] := by
    rw [hext, List.map_map]
    rfl
  rw [hmap] at hout hall
  -- the lines found are the first ones sent
  obtain ⟨more, rfl, hrest⟩ := lines_append hfound hls htail
    (by rw [← hsent, ← hw', List.append_assoc])
  rw [List.map_append]
  refine ⟨hout.trans (List.prefix_append _ _), fun hret hlen => ?_⟩
  have hdone : c.reader = .done := by
    obtain ⟨hord, -⟩ := (reachable_run hact).ordered hw
    exact hord.eof (hord.returned hret).2
  rcases hstatus with ⟨-, hbroken⟩ | ⟨hsame, hrest'⟩
  · exfalso
    rcases hbroken with ⟨chunk, hchunk, hbig⟩ | ⟨u, buf, u', -, hcall⟩
    · have := hchunk.length_le
      simp only [List.length_append] at this hbig
      omega
    · rcases lineHandler_cases u buf with ⟨-, hcall'⟩ | ⟨line, rest, -, -, hcall'⟩ <;>
        cases hcall.symm.trans hcall'
  · have hline := (hrest' (.inr hdone)).no_line
    obtain rfl : rest = [] := List.append_cancel_left (hw'.trans (by simp [← hsame]))
    rw [List.append_nil] at hrest
    cases more with
    | nil => rw [List.map_nil, List.append_nil, hall hret]
    | cons m more => exact absurd (hrest ▸ by simp) hline

/-- A client that sends a line and half of another one, in two chunks. -/
def greeting : List Action :=
  [.read (some [104]), .read (some [105, 13, 10, 104]), .readOn, .writeOn,
    .resolve 0 (.value [104, 105, 10]), .reply, .written true, .flush true, .read none, .writeOn]

theorem greeting_echoed :
    ∃ c, Steps.runs (Socket.serve lineHandler LineEchoHandler.handleRequest) { handler := () }
        greeting = some c ∧ c.writer = .returned ∧ c.out = [[104, 105, 10]] := by
  have hrun : (Steps.runs (Socket.serve lineHandler LineEchoHandler.handleRequest)
      { handler := () } greeting).map (·.writer) = some .returned := by decide +kernel
  obtain ⟨c, hc, hret⟩ := Option.map_eq_some_iff.mp hrun
  refine ⟨c, hc, hret, ?_⟩
  exact (lines_echoed hc (by simp [hret]) [[104, 105, 13]] [104] (by decide) (by decide)
    (by decide)).2 hret (by decide)

end ShunyaKV.Conn
