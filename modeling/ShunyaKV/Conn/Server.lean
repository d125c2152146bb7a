import ShunyaKV.Lib.Steps
import ShunyaKV.Lib.Tally

/-!
The socket server of a shard: its listeners, its connections and how it stops.

Every listener has a loop that accepts connections, and every connection a `process`; both hold
units of a gate. A loop holds one for itself and another one while it accepts. `stop` aborts the
accepts, shuts the connections down and closes the gate; it is over when all units are back. A
task runs from one continuation to the next, and others may run in between.
-/

namespace ShunyaKV.Conn

open ShunyaKV.Lib ShunyaKV.Lib.Tally

structure Gate where
  count : ℕ := 0
  closed : Bool := false

def Gate.enter (g : Gate) : Option Gate :=
  if g.closed then none else some { g with count := g.count + 1 }

def Gate.leave (g : Gate) : Gate := { g with count := g.count - 1 }

/-- Where the accept loop of a listener is. -/
inductive AcceptPc
  /-- in `accept()` -/
  | accepting
  /-- `accept()` has given a connection, or an exception -/
  | accepted (ok : Bool)
  /-- `do_accept_one` is over -/
  | settled
  /-- `keep_doing` goes round -/
  | between
  /-- the gate was closed -/
  | leaving
  | ended
  deriving DecidableEq

/-- The units of the gate that the loop holds. -/
def AcceptPc.units : AcceptPc → ℕ
  | .accepting => 2
  | .accepted _ => 2
  | .settled => 2
  | .between => 1
  | .leaving => 1
  | .ended => 0

/-- Where the `process` of a connection is. -/
inductive ConnPc
  /-- in `send_shard_details` -/
  | greeting
  /-- in `when_all`; whether the read loop and the write loop still run -/
  | looping (reads writes : Bool)
  /-- in `c.out().close()` -/
  | closingOut
  /-- in `c.in().close()` -/
  | closingIn
  /-- `process` is over -/
  | processed
  /-- the connection is destroyed -/
  | destroyed
  /-- and its unit of the gate is back -/
  | gone
  deriving DecidableEq

def ConnPc.units : ConnPc → ℕ
  | .gone => 0
  | _ => 1

/-- The connection is in `_connections`. -/
def ConnPc.alive : ConnPc → Bool
  | .destroyed => false
  | .gone => false
  | _ => true

structure Connection where
  pc : ConnPc
  /-- `shutdown` was called. -/
  shut : Bool := false

/-- The connections are those that have come through the gate. -/
structure SocketServer where
  /-- Whether `_handler_factory` gives a handler. -/
  handlerFactory : Bool := false
  /-- `g_send_shard_details_on_connect` -/
  sendShardDetails : Bool := false
  /-- The loop of each listener. -/
  loops : List AcceptPc := []
  conns : List Connection := []
  totalConnections : ℕ := 0
  currentConnections : ℕ := 0
  taskGate : Gate := {}

inductive ServerAct
  | setHandler
  | listen
  /-- a client connects to listener `l`, or its `accept()` fails -/
  | accept (l : ℕ) (ok : Bool)
  /-- the loop of listener `l` goes on -/
  | proceed (l : ℕ)
  /-- `send_shard_details` of connection `c` is over -/
  | greeted (c : ℕ) (ok : Bool)
  | readLoopDone (c : ℕ)
  | writeLoopDone (c : ℕ)
  /-- the `process` of connection `c` goes on, or what comes after it -/
  | conclude (c : ℕ)
  | stop

namespace SocketServer

def onConnOpen (s : SocketServer) : SocketServer :=
  { s with
    totalConnections := s.totalConnections + 1
    currentConnections := s.currentConnections + 1 }

def onDestroy (s : SocketServer) : SocketServer :=
  { s with currentConnections := s.currentConnections - 1 }

def process (s : SocketServer) : ConnPc :=
  if s.sendShardDetails then .greeting else .looping true true

/-- What follows `accept()`: a connection is made and processed. One that the gate refuses is
destroyed at once; without a handler there is none. -/
def acceptOne (s : SocketServer) (ok : Bool) : SocketServer :=
  if !ok then s
  else if !s.handlerFactory then s
  else
    let s := s.onConnOpen
    match s.taskGate.enter with
    | some gate => { s with taskGate := gate, conns := s.conns ++ [{ pc := s.process }] }
    | none => s.onDestroy

/-- A loop comes to `accept()`, unless the gate is closed. -/
def listen (s : SocketServer) : SocketServer :=
  match s.taskGate.enter.bind Gate.enter with
  | some gate => { s with taskGate := gate, loops := s.loops ++ [.accepting] }
  | none => { s with loops := s.loops ++ [.ended] }

def proceed (s : SocketServer) (l : ℕ) (pc : AcceptPc) : Option SocketServer :=
  match pc with
  | .accepted ok => some { s.acceptOne ok with loops := s.loops.set l .settled }
  | .settled => some { s with taskGate := s.taskGate.leave, loops := s.loops.set l .between }
  | .between =>
    match s.taskGate.enter with
    | some gate => some { s with taskGate := gate, loops := s.loops.set l .accepting }
    | none => some { s with loops := s.loops.set l .leaving }
  | .leaving => some { s with taskGate := s.taskGate.leave, loops := s.loops.set l .ended }
  | _ => none

def setPc (s : SocketServer) (c : ℕ) (conn : Connection) (pc : ConnPc) : SocketServer :=
  { s with conns := s.conns.set c { conn with pc := pc } }

def conclude (s : SocketServer) (c : ℕ) (conn : Connection) : Option SocketServer :=
  match conn.pc with
  | .looping false false => some (s.setPc c conn .closingOut)
  | .closingOut => some (s.setPc c conn .closingIn)
  | .closingIn => some (s.setPc c conn .processed)
  | .processed => some (s.onDestroy.setPc c conn .destroyed)
  | .destroyed => some ({ s with taskGate := s.taskGate.leave }.setPc c conn .gone)
  | _ => none

/-- The accepts fail, the connections are shut down and the gate is closed. -/
def stop (s : SocketServer) : SocketServer :=
  { s with
    loops := s.loops.map fun pc => if pc = .accepting then .accepted false else pc
    conns := s.conns.map fun conn => if conn.pc.alive then { conn with shut := true } else conn
    taskGate := { s.taskGate with closed := true } }

def act (s : SocketServer) : ServerAct → Option SocketServer
  | .setHandler => some { s with handlerFactory := true }
  | .listen => some s.listen
  | .accept l ok =>
    if s.loops[l]? = some .accepting then some { s with loops := s.loops.set l (.accepted ok) }
    else none
  | .proceed l => s.loops[l]?.bind (s.proceed l)
  | .greeted c ok =>
    s.conns[c]?.bind fun conn =>
      if conn.pc = .greeting then
        some (s.setPc c conn (if ok then .looping true true else .closingOut))
      else none
  | .readLoopDone c =>
    s.conns[c]?.bind fun conn =>
      match conn.pc with
      | .looping true writes => some (s.setPc c conn (.looping false writes))
      | _ => none
  | .writeLoopDone c =>
    s.conns[c]?.bind fun conn =>
      match conn.pc with
      | .looping reads true => some (s.setPc c conn (.looping reads false))
      | _ => none
  | .conclude c => s.conns[c]?.bind (s.conclude c)
  | .stop => if s.taskGate.closed then none else some s.stop

end SocketServer

/-! ### One action -/

def AcceptPc.todo : AcceptPc → ℕ
  | .accepting => 5
  | .accepted _ => 4
  | .settled => 3
  | .between => 2
  | .leaving => 1
  | .ended => 0

def ConnPc.todo : ConnPc → ℕ
  | .greeting => 8
  | .looping reads writes => 5 + reads.toNat + writes.toNat
  | .closingOut => 4
  | .closingIn => 3
  | .processed => 2
  | .destroyed => 1
  | .gone => 0

inductive ServerDoes (s : SocketServer) : ServerAct → SocketServer → Prop
  | setHandler : ServerDoes s .setHandler { s with handlerFactory := true }
  | listen : ServerDoes s .listen s.listen
  | accept {l : ℕ} {ok : Bool} (hl : s.loops[l]? = some .accepting) :
    ServerDoes s (.accept l ok) { s with loops := s.loops.set l (.accepted ok) }
  | acceptOne {l : ℕ} {ok : Bool} (hl : s.loops[l]? = some (.accepted ok)) :
    ServerDoes s (.proceed l) { s.acceptOne ok with loops := s.loops.set l .settled }
  | settle {l : ℕ} (hl : s.loops[l]? = some .settled) :
    ServerDoes s (.proceed l)
      { s with taskGate := s.taskGate.leave, loops := s.loops.set l .between }
  | again {l : ℕ} (hl : s.loops[l]? = some .between) (hopen : s.taskGate.closed = false) :
    ServerDoes s (.proceed l)
      { s with
        taskGate := { s.taskGate with count := s.taskGate.count + 1 }
        loops := s.loops.set l .accepting }
  | refused {l : ℕ} (hl : s.loops[l]? = some .between) (hclosed : s.taskGate.closed = true) :
    ServerDoes s (.proceed l) { s with loops := s.loops.set l .leaving }
  | leave {l : ℕ} (hl : s.loops[l]? = some .leaving) :
    ServerDoes s (.proceed l)
      { s with taskGate := s.taskGate.leave, loops := s.loops.set l .ended }
  | move {a : ServerAct} {c : ℕ} {conn : Connection} {pc : ConnPc} (hc : s.conns[c]? = some conn)
    (hbefore : conn.pc.alive = true) (hafter : pc.alive = true) (htodo : pc.todo < conn.pc.todo) :
    ServerDoes s a (s.setPc c conn pc)
  | destroy {c : ℕ} {conn : Connection} (hc : s.conns[c]? = some conn)
    (hpc : conn.pc = .processed) : ServerDoes s (.conclude c) (s.onDestroy.setPc c conn .destroyed)
  | back {c : ℕ} {conn : Connection} (hc : s.conns[c]? = some conn) (hpc : conn.pc = .destroyed) :
    ServerDoes s (.conclude c) ({ s with taskGate := s.taskGate.leave }.setPc c conn .gone)
  | stop (hopen : s.taskGate.closed = false) : ServerDoes s .stop s.stop

lemma enter_eq_some {g g' : Gate} (h : g.enter = some g') :
    g.closed = false ∧ g' = { g with count := g.count + 1 } := by
  unfold Gate.enter at h
  split at h
  · cases h
  · next hclosed => exact ⟨by simpa using hclosed, (Option.some.inj h).symm⟩

lemma enter_eq_none {g : Gate} : g.enter = none ↔ g.closed = true := by
  unfold Gate.enter
  split <;> simp_all

lemma does_proceed {s t : SocketServer} {l : ℕ} {pc : AcceptPc} (hl : s.loops[l]? = some pc)
    (h : s.proceed l pc = some t) : ServerDoes s (.proceed l) t := by
  unfold SocketServer.proceed at h
  split at h
  · cases h
    exact .acceptOne hl
  · cases h
    exact .settle hl
  · split at h
    · next gate hgate =>
      cases h
      obtain ⟨hopen, rfl⟩ := enter_eq_some hgate
      exact .again hl hopen
    · next hgate =>
      cases h
      exact .refused hl (enter_eq_none.mp hgate)
  · cases h
    exact .leave hl
  · cases h

lemma does_conclude {s t : SocketServer} {c : ℕ} {conn : Connection}
    (hc : s.conns[c]? = some conn) (h : s.conclude c conn = some t) :
    ServerDoes s (.conclude c) t := by
  unfold SocketServer.conclude at h
  split at h
  case h_4 hpc =>
    cases h
    exact .destroy hc hpc
  case h_5 hpc =>
    cases h
    exact .back hc hpc
  case h_6 => cases h
  all_goals
    next hpc =>
    cases h
    exact .move hc (by rw [hpc]; rfl) rfl (by rw [hpc]; decide)

lemma does_of_server {s t : SocketServer} {a : ServerAct} (h : s.act a = some t) :
    ServerDoes s a t := by
  cases a with
  | setHandler =>
    cases h
    exact .setHandler
  | listen =>
    cases h
    exact .listen
  | accept l ok =>
    unfold SocketServer.act at h
    dsimp only at h
    split at h
    · next hl =>
      cases h
      exact .accept hl
    · cases h
  | proceed l =>
    obtain ⟨pc, hl, hpc⟩ := Option.bind_eq_some_iff.mp h
    exact does_proceed hl hpc
  | greeted c ok =>
    obtain ⟨conn, hc, hconn⟩ := Option.bind_eq_some_iff.mp h
    split at hconn
    · next hpc =>
      cases hconn
      refine .move hc (by rw [hpc]; rfl) ?_ ?_
      · cases ok <;> rfl
      · rw [hpc]
        cases ok <;> decide
    · cases hconn
  | readLoopDone c =>
    obtain ⟨conn, hc, hconn⟩ := Option.bind_eq_some_iff.mp h
    split at hconn
    · next writes hpc =>
      cases hconn
      exact .move hc (by rw [hpc]; rfl) rfl (by rw [hpc]; simp [ConnPc.todo])
    · cases hconn
  | writeLoopDone c =>
    obtain ⟨conn, hc, hconn⟩ := Option.bind_eq_some_iff.mp h
    split at hconn
    · next reads hpc =>
      cases hconn
      exact .move hc (by rw [hpc]; rfl) rfl (by rw [hpc]; simp [ConnPc.todo])
    · cases hconn
  | conclude c =>
    obtain ⟨conn, hc, hconn⟩ := Option.bind_eq_some_iff.mp h
    exact does_conclude hc hconn
  | stop =>
    unfold SocketServer.act at h
    dsimp only at h
    split at h
    · cases h
    · next hopen =>
      cases h
      exact .stop (by simpa using hopen)

/-! ### What is kept -/

def Connection.present (conn : Connection) : ℕ := if conn.pc.alive then 1 else 0

def Connection.units (conn : Connection) : ℕ := conn.pc.units

/-- The gate counts the units of the loops and connections, the server counts its connections, and
once the gate is closed no loop accepts and every connection is shut down. -/
structure Balanced (s : SocketServer) : Prop where
  units : s.taskGate.count = tally AcceptPc.units s.loops + tally Connection.units s.conns
  current : s.currentConnections = tally Connection.present s.conns
  total : s.conns.length ≤ s.totalConnections
  accepts : s.taskGate.closed = true → ∀ pc ∈ s.loops, pc ≠ .accepting
  shut : s.taskGate.closed = true → ∀ conn ∈ s.conns, conn.pc.alive = true → conn.shut = true

lemma balanced_init (handler details : Bool) :
    Balanced { handlerFactory := handler, sendShardDetails := details } :=
  ⟨rfl, rfl, Nat.le_refl 0, by simp, by simp⟩

section

variable {s : SocketServer}

lemma Balanced.loop (h : Balanced s) {l : ℕ} {pc pc' : AcceptPc} {g : Gate}
    (hl : s.loops[l]? = some pc) (hcount : g.count + pc.units = s.taskGate.count + pc'.units)
    (hclosed : g.closed = s.taskGate.closed)
    (haccept : pc' = .accepting → s.taskGate.closed = false) :
    Balanced { s with taskGate := g, loops := s.loops.set l pc' } where
  units := by
    have hset := tally_set (f := AcceptPc.units) hl pc'
    have hunits := h.units
    dsimp only
    omega
  current := h.current
  total := h.total
  accepts hg q hq := by
    dsimp only at hg hq
    rw [hclosed] at hg
    rcases List.mem_or_eq_of_mem_set hq with hq | rfl
    · exact h.accepts hg q hq
    · intro hacc
      simp [haccept hacc] at hg
  shut hg := h.shut (by rw [← hclosed]; exact hg)

lemma Balanced.conn (h : Balanced s) {c n : ℕ} {conn : Connection} {pc : ConnPc} {g : Gate}
    (hc : s.conns[c]? = some conn)
    (hcount : g.count + conn.pc.units = s.taskGate.count + pc.units)
    (hclosed : g.closed = s.taskGate.closed)
    (hn : n + (if conn.pc.alive then 1 else 0) = s.currentConnections + if pc.alive then 1 else 0)
    (halive : pc.alive = true → conn.pc.alive = true) :
    Balanced { s with taskGate := g, currentConnections := n,
                      conns := s.conns.set c { conn with pc := pc } } where
  units := by
    have hset := tally_set (f := Connection.units) hc { conn with pc := pc }
    have hunits := h.units
    simp only [Connection.units] at hset
    dsimp only
    omega
  current := by
    have hset := tally_set (f := Connection.present) hc { conn with pc := pc }
    have hcurrent := h.current
    simp only [Connection.present] at hset
    dsimp only
    omega
  total := by simpa using h.total
  accepts hg := h.accepts (by rw [← hclosed]; exact hg)
  shut hg d hd ha := by
    dsimp only at hg hd
    rw [hclosed] at hg
    rcases List.mem_or_eq_of_mem_set hd with hd | rfl
    · exact h.shut hg d hd ha
    · exact h.shut hg conn (List.mem_of_getElem? hc) (halive ha)

lemma Balanced.listen (h : Balanced s) : Balanced s.listen := by
  unfold SocketServer.listen
  split
  · next g hg =>
    obtain ⟨g₁, hg₁, hg₂⟩ := Option.bind_eq_some_iff.mp hg
    obtain ⟨hopen, rfl⟩ := enter_eq_some hg₁
    obtain ⟨-, rfl⟩ := enter_eq_some hg₂
    have hunits := h.units
    refine ⟨?_, h.current, h.total, by simp [hopen], by simp [hopen]⟩
    simp only [tally_append, tally_cons, tally_nil, AcceptPc.units]
    omega
  · refine ⟨?_, h.current, h.total, fun hg pc hpc => ?_, h.shut⟩
    · simpa [AcceptPc.units] using h.units
    · rcases List.mem_append.mp hpc with hpc | hpc
      · exact h.accepts hg pc hpc
      · simp [List.mem_singleton.mp hpc]

lemma alive_process (s : SocketServer) : s.process.alive = true := by
  unfold SocketServer.process
  split <;> rfl

lemma units_of_alive {pc : ConnPc} (h : pc.alive = true) : pc.units = 1 := by
  cases pc <;> first | rfl | cases h

/-- A connection is accepted: it is served if the gate is open, and is gone at once if not. -/
lemma Balanced.acceptOne (h : Balanced s) (ok : Bool) : Balanced (s.acceptOne ok) := by
  unfold SocketServer.acceptOne
  split
  · exact h
  · split
    · exact h
    · dsimp only
      split
      · next g hg =>
        obtain ⟨hopen, rfl⟩ := enter_eq_some hg
        have hopen' : s.taskGate.closed = false := hopen
        have hunits := h.units
        have hcurrent := h.current
        have halive := alive_process s.onConnOpen
        refine ⟨?_, ?_, ?_, by simp [SocketServer.onConnOpen, hopen'],
          by simp [SocketServer.onConnOpen, hopen']⟩
        · simp only [SocketServer.onConnOpen, tally_append, tally_cons, tally_nil,
            Connection.units]
          have := units_of_alive halive
          simp only [SocketServer.onConnOpen] at this
          omega
        · simp only [SocketServer.onConnOpen, tally_append, tally_cons, tally_nil,
            Connection.present]
          simp only [SocketServer.onConnOpen] at halive
          simp only [halive, if_true]
          omega
        · have htotal := h.total
          simp only [SocketServer.onConnOpen, List.length_append, List.length_singleton]
          omega
      · refine ⟨h.units, ?_, ?_, h.accepts, h.shut⟩
        · exact h.current
        · exact Nat.le_succ_of_le h.total

lemma loops_acceptOne (s : SocketServer) (ok : Bool) : (s.acceptOne ok).loops = s.loops := by
  unfold SocketServer.acceptOne
  split
  · rfl
  · split
    · rfl
    · dsimp only
      split <;> rfl

lemma Balanced.stop (h : Balanced s) : Balanced s.stop where
  units := by
    have hloops : tally AcceptPc.units s.stop.loops = tally AcceptPc.units s.loops := by
      refine tally_map (fun pc => ?_) s.loops
      split
      · next hpc => rw [hpc]; rfl
      · rfl
    have hconns : tally Connection.units s.stop.conns = tally Connection.units s.conns := by
      refine tally_map (fun conn => ?_) s.conns
      split <;> rfl
    rw [hloops, hconns]
    exact h.units
  current := by
    have hconns : tally Connection.present s.stop.conns = tally Connection.present s.conns := by
      refine tally_map (fun conn => ?_) s.conns
      split <;> rfl
    rw [hconns]
    exact h.current
  total := by simpa [SocketServer.stop] using h.total
  accepts _ pc hpc := by
    obtain ⟨pc', -, rfl⟩ := List.mem_map.mp hpc
    split
    · simp
    · next hne => exact hne
  shut _ conn hconn := by
    obtain ⟨conn', -, rfl⟩ := List.mem_map.mp hconn
    split
    · exact fun _ => rfl
    · next hdead => exact fun halive => absurd halive hdead

/-- **Every action.** -/
lemma Balanced.act {a : ServerAct} {t : SocketServer} (h : Balanced s) (ha : s.act a = some t) :
    Balanced t := by
  have hpos {l : ℕ} {pc : AcceptPc} (hl : s.loops[l]? = some pc) : pc.units ≤ s.taskGate.count := by
    have hset := tally_set (f := AcceptPc.units) hl .ended
    have hended : AcceptPc.ended.units = 0 := rfl
    have hunits := h.units
    omega
  cases does_of_server ha with
  | setHandler => exact ⟨h.units, h.current, h.total, h.accepts, h.shut⟩
  | listen => exact h.listen
  | accept hl => exact h.loop hl rfl rfl (by simp)
  | @acceptOne l ok hl =>
    have h' := h.acceptOne ok
    rw [← loops_acceptOne s ok] at hl ⊢
    exact h'.loop hl rfl rfl (by simp)
  | settle hl =>
    have hle := hpos hl
    exact h.loop hl (by simp only [Gate.leave, AcceptPc.units] at hle ⊢; omega) rfl (by simp)
  | again hl hopen => exact h.loop hl rfl rfl fun _ => hopen
  | refused hl => exact h.loop hl rfl rfl (by simp)
  | leave hl =>
    have hle := hpos hl
    exact h.loop hl (by simp only [Gate.leave, AcceptPc.units] at hle ⊢; omega) rfl (by simp)
  | move hc hbefore hafter =>
    refine h.conn hc ?_ rfl ?_ fun _ => hbefore
    · rw [units_of_alive hbefore, units_of_alive hafter]
    · rw [hbefore, hafter]
  | @destroy c conn hc hpc =>
    refine h.conn hc (by rw [hpc]; rfl) rfl ?_ (by simp [ConnPc.alive])
    have hset := tally_set (f := Connection.present) hc { conn with pc := .destroyed }
    have hcurrent := h.current
    simp only [Connection.present, hpc, ConnPc.alive, if_true, Bool.false_eq_true,
      if_false] at hset ⊢
    simp only [SocketServer.onDestroy]
    omega
  | @back c conn hc hpc =>
    have hset := tally_set (f := Connection.units) hc { conn with pc := .gone }
    have hunits := h.units
    simp only [Connection.units, hpc, ConnPc.units] at hset
    refine h.conn hc ?_ rfl (by simp [hpc, ConnPc.alive]) (by simp [ConnPc.alive])
    simp only [hpc, ConnPc.units, Gate.leave]
    omega
  | stop => exact h.stop

lemma balanced_runs {handler details : Bool} {acts : List ServerAct}
    (h : Steps.runs SocketServer.act
      { handlerFactory := handler, sendShardDetails := details } acts = some s) : Balanced s :=
  Steps.runs_rule (fun _ _ _ hI ha => hI.act ha) (balanced_init handler details) h

/-! ### After `stop` -/

/-- Behind a closed gate no connection is served that was not before. -/
lemma closed_act {a : ServerAct} {t : SocketServer} (h : s.taskGate.closed = true)
    (ha : s.act a = some t) : t.taskGate.closed = true ∧ t.conns.length = s.conns.length := by
  cases does_of_server ha with
  | listen =>
    unfold SocketServer.listen
    rw [enter_eq_none.mpr h]
    exact ⟨h, rfl⟩
  | @acceptOne l ok hl =>
    unfold SocketServer.acceptOne
    split
    · exact ⟨h, rfl⟩
    · split
      · exact ⟨h, rfl⟩
      · have hnone : s.onConnOpen.taskGate.enter = none := enter_eq_none.mpr h
        dsimp only
        rw [hnone]
        exact ⟨h, rfl⟩
  | again _ hopen => simp [h] at hopen
  | stop hopen => simp [h] at hopen
  | setHandler | accept | settle | refused | leave => exact ⟨h, rfl⟩
  | move | destroy | back => exact ⟨h, List.length_set⟩

lemma closed_runs {acts : List ServerAct} {t : SocketServer} (h : s.taskGate.closed = true)
    (hr : Steps.runs SocketServer.act s acts = some t) :
    t.taskGate.closed = true ∧ t.conns.length = s.conns.length :=
  Steps.runs_rule (I := fun u => u.taskGate.closed = true ∧ u.conns.length = s.conns.length)
    (fun _ _ _ hI ha => ⟨(closed_act hI.1 ha).1, (closed_act hI.1 ha).2.trans hI.2⟩) ⟨h, rfl⟩ hr

/-- When all units are back, every loop has ended and every connection is gone. -/
lemma Balanced.empty (h : Balanced s) (hcount : s.taskGate.count = 0) :
    (∀ pc ∈ s.loops, pc = .ended) ∧ ∀ conn ∈ s.conns, conn.pc = .gone := by
  have hunits := h.units
  rw [hcount, eq_comm, Nat.add_eq_zero_iff, tally_eq_zero_iff, tally_eq_zero_iff] at hunits
  refine ⟨fun pc hpc => ?_, fun conn hconn => ?_⟩
  · have hzero := hunits.1 pc hpc
    cases pc <;> first | rfl | cases hzero
  · obtain ⟨pc, shut⟩ := conn
    have hzero := hunits.2 _ hconn
    cases pc <;> first | rfl | cases hzero

/-- Actions of the server itself and of its clients; the others are calls from outside. -/
def ServerAct.inside : ServerAct → Bool
  | .setHandler => false
  | .listen => false
  | _ => true

def SocketServer.todo (s : SocketServer) : ℕ :=
  tally AcceptPc.todo s.loops + tally (fun conn : Connection => conn.pc.todo) s.conns

/-- Behind a closed gate every action brings the end nearer. -/
lemma todo_act {a : ServerAct} {t : SocketServer} (hb : Balanced s) (h : s.taskGate.closed = true)
    (hin : a.inside = true) (ha : s.act a = some t) : t.todo < s.todo := by
  have hloop {l : ℕ} {pc : AcceptPc} (pc' : AcceptPc) (hl : s.loops[l]? = some pc)
      (hlt : pc'.todo < pc.todo) :
      tally AcceptPc.todo (s.loops.set l pc') < tally AcceptPc.todo s.loops := by
    have hset := tally_set (f := AcceptPc.todo) hl pc'
    omega
  have hconn {c : ℕ} {conn : Connection} (pc : ConnPc) (hc : s.conns[c]? = some conn)
      (hlt : pc.todo < conn.pc.todo) :
      tally (fun conn : Connection => conn.pc.todo) (s.conns.set c { conn with pc := pc }) <
        tally (fun conn : Connection => conn.pc.todo) s.conns := by
    have hset := tally_set (f := fun conn : Connection => conn.pc.todo) hc { conn with pc := pc }
    simp only at hset
    omega
  have hsame {conns : List Connection} (hconns : conns = s.conns) {loops : List AcceptPc}
      (hlt : tally AcceptPc.todo loops < tally AcceptPc.todo s.loops) :
      tally AcceptPc.todo loops + tally (fun conn : Connection => conn.pc.todo) conns <
        s.todo := by
    rw [hconns]
    exact Nat.add_lt_add_right hlt _
  cases does_of_server ha with
  | setHandler | listen => cases hin
  | accept hl => exact absurd rfl (hb.accepts h _ (List.mem_of_getElem? hl))
  | @acceptOne l ok hl =>
    refine hsame ?_ (hloop .settled hl (by simp [AcceptPc.todo]))
    unfold SocketServer.acceptOne
    split
    · rfl
    · split
      · rfl
      · have hnone : s.onConnOpen.taskGate.enter = none := enter_eq_none.mpr h
        dsimp only
        rw [hnone]
        rfl
  | settle hl => exact hsame rfl (hloop .between hl (by simp [AcceptPc.todo]))
  | again _ hopen => simp [h] at hopen
  | refused hl => exact hsame rfl (hloop .leaving hl (by simp [AcceptPc.todo]))
  | leave hl => exact hsame rfl (hloop .ended hl (by simp [AcceptPc.todo]))
  | move hc _ _ htodo => exact Nat.add_lt_add_left (hconn _ hc htodo) _
  | destroy hc hpc => exact Nat.add_lt_add_left (hconn _ hc (by simp [hpc, ConnPc.todo])) _
  | back hc hpc => exact Nat.add_lt_add_left (hconn _ hc (by simp [hpc, ConnPc.todo])) _
  | stop hopen => simp [h] at hopen

/-- Behind a closed gate a loop or connection that is left can go on. -/
lemma Balanced.stuck (hb : Balanced s) (h : s.taskGate.closed = true)
    (hstuck : ∀ a, a.inside = true → s.act a = none) : s.taskGate.count = 0 := by
  rw [hb.units, Nat.add_eq_zero_iff, tally_eq_zero_iff, tally_eq_zero_iff]
  refine ⟨fun pc hpc => ?_, fun conn hconn => ?_⟩
  · obtain ⟨l, hl⟩ := List.mem_iff_getElem?.mp hpc
    have hnone : s.proceed l pc = none := by
      simpa [SocketServer.act, hl] using hstuck (.proceed l) rfl
    cases pc with
    | accepting => exact absurd rfl (hb.accepts h _ hpc)
    | between =>
      rw [SocketServer.proceed, enter_eq_none.mpr h] at hnone
      cases hnone
    | ended => rfl
    | _ => cases hnone
  · obtain ⟨c, hc⟩ := List.mem_iff_getElem?.mp hconn
    have hconclude : s.conclude c conn = none := by
      simpa [SocketServer.act, hc] using hstuck (.conclude c) rfl
    obtain ⟨pc, shut⟩ := conn
    cases pc with
    | greeting =>
      have := hstuck (.greeted c true) rfl
      simp [SocketServer.act, hc] at this
    | looping reads writes =>
      cases reads with
      | true =>
        have := hstuck (.readLoopDone c) rfl
        simp [SocketServer.act, hc] at this
      | false =>
        cases writes with
        | true =>
          have := hstuck (.writeLoopDone c) rfl
          simp [SocketServer.act, hc] at this
        | false => cases hconclude
    | gone => rfl
    | _ => cases hconclude

/-- **A stopped server is empty.** In every run the server counts the connections it has. Once
`stop` was called, no further connection is served, and those that are left have been shut down;
and when the future of `stop` resolves, all accept loops have ended, all connections are
destroyed, and nothing is left that could still act on the server. -/
theorem stop_leaves_nothing {handler details : Bool} {acts : List ServerAct}
    (hr : Steps.runs SocketServer.act
      { handlerFactory := handler, sendShardDetails := details } acts = some s) :
    (s.currentConnections = s.conns.countP (·.pc.alive) ∧
      s.currentConnections ≤ s.totalConnections) ∧
    (s.taskGate.closed = true → ∀ more t, Steps.runs SocketServer.act s more = some t →
      t.conns.length = s.conns.length ∧
        ∀ conn ∈ t.conns, conn.pc.alive = true → conn.shut = true) ∧
    (s.taskGate.closed = true → s.taskGate.count = 0 →
      (∀ pc ∈ s.loops, pc = .ended) ∧ (∀ conn ∈ s.conns, conn.pc = .gone) ∧
        s.currentConnections = 0 ∧ ∀ a t, s.act a = some t → a.inside = false) := by
  have hb := balanced_runs hr
  have hcurrent : s.currentConnections = s.conns.countP (·.pc.alive) :=
    hb.current.trans (tally_ite _ _)
  refine ⟨⟨hcurrent, ?_⟩, fun hclosed more t ht => ?_, fun hclosed hcount => ?_⟩
  · rw [hcurrent]
    exact Nat.le_trans List.countP_le_length hb.total
  · obtain ⟨hclosed', hlen⟩ := closed_runs hclosed ht
    have hb' := balanced_runs ((Steps.runs_trans hr more).trans ht)
    exact ⟨hlen, hb'.shut hclosed'⟩
  · obtain ⟨hloops, hconns⟩ := hb.empty hcount
    refine ⟨hloops, hconns, ?_, fun a t ha => ?_⟩
    · rw [hb.current, tally_eq_zero_iff]
      intro conn hconn
      simp [Connection.present, hconns conn hconn, ConnPc.alive]
    · by_contra hin
      have hlt := todo_act hb hclosed (by simpa using hin) ha
      have hzero : s.todo = 0 := by
        rw [SocketServer.todo, Nat.add_eq_zero_iff, tally_eq_zero_iff, tally_eq_zero_iff]
        refine ⟨fun pc hpc => by rw [hloops pc hpc]; rfl, fun conn hconn => ?_⟩
        rw [hconns conn hconn]
        rfl
      omega

/-- The server after `stop`, left to itself and its clients. -/
def SocketServer.windDown (s : SocketServer) (a : ServerAct) : Option SocketServer :=
  if a.inside then s.act a else none

end

/-- A client is served and another one has just connected when the server is stopped. -/
def upToStop : List ServerAct :=
  [.setHandler, .listen, .accept 0 true, .proceed 0, .proceed 0, .proceed 0, .accept 0 true, .stop]

def afterStop : List ServerAct :=
  [.proceed 0, .proceed 0, .readLoopDone 0, .proceed 0, .writeLoopDone 0, .conclude 0, .proceed 0,
    .conclude 0, .conclude 0, .conclude 0, .conclude 0]

/-- The second client is not served. -/
theorem stop_leaves_nothing_served :
    ∃ s, Steps.runs SocketServer.act {} (upToStop ++ afterStop) = some s ∧
      s.totalConnections = 2 ∧ s.conns.length = 1 ∧ (∀ pc ∈ s.loops, pc = .ended) ∧
      s.currentConnections = 0 := by
  have hrun : (Steps.runs SocketServer.act {} (upToStop ++ afterStop)).map (fun s =>
      (s.totalConnections, s.conns.length, s.taskGate.closed, s.taskGate.count)) =
        some (2, 1, true, 0) := by decide
  obtain ⟨s, hs, hout⟩ := Option.map_eq_some_iff.mp hrun
  simp only [Prod.mk.injEq] at hout
  obtain ⟨htotal, hlen, hclosed, hcount⟩ := hout
  obtain ⟨hloops, -, hcurrent, -⟩ := (stop_leaves_nothing hs).2.2 hclosed hcount
  exact ⟨s, hs, htotal, hlen, hloops, hcurrent⟩

end ShunyaKV.Conn
