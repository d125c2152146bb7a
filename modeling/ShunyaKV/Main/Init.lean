import ShunyaKV.Conn.Server
import ShunyaKV.Router.Restart

/-!
The process, from `init` to its end.

`init` goes through phases. In each of them every shard does its part, and the next phase begins
when all parts are over; after an exception the servers are stopped. Meanwhile the servers
accept connections, the connections make calls, and the calls arrive at the services of other
shards. A call that finds its service not started starts it, with the default configuration and
not with the one of the process; one that comes while the service is being started finds a store
without its pool. Neither happens.
-/

namespace ShunyaKV.Main

open ShunyaKV.Lib.Steps ShunyaKV.Shard ShunyaKV.Conn ShunyaKV.Router

/-- What `init` has all shards do. -/
inductive Phase
  /-- `set_send_shard_details_on_connect(enabled)` -/
  | details
  /-- `local_service().start(cfg)` -/
  | services
  /-- `server.start()` -/
  | servers
  /-- `server.set_handler` -/
  | handlers
  /-- `server.listen` -/
  | listen
  /-- `server.stop()`, which stops the servers -/
  | stop
  /-- and destroys them when all have stopped -/
  | destroy
  /-- `log_request_counters_on_shutdown` -/
  | counters
  deriving DecidableEq

inductive InitPc
  | phase (ph : Phase)
  /-- in `sleep_abortable` -/
  | sleeping
  | returned
  deriving DecidableEq

/-- The next phase, without an exception and after one. -/
def Phase.next (thrown : Bool) : Phase → InitPc
  | .details => if thrown then .phase .stop else .phase .services
  | .services => if thrown then .phase .stop else .phase .servers
  | .servers => if thrown then .phase .stop else .phase .handlers
  | .handlers => if thrown then .phase .stop else .phase .listen
  | .listen => if thrown then .phase .stop else .sleeping
  | .stop => .phase .destroy
  | .destroy => .phase .counters
  | .counters => .returned

/-- How far a shard is with its part of the phase. -/
inductive Part
  | waiting
  | running
  | over
  deriving DecidableEq

structure Core where
  part : Part := .waiting
  /-- `g_send_shard_details_on_connect` -/
  details : Bool := false
  /-- `local_service()` -/
  service : Service := .new
  /-- The instance of `sharded<socket_server>`. -/
  server : Option SocketServer := none

/-- A part up to its first suspension. A service counts as started before its store is. -/
def Core.beginPart (core : Core) : Phase → Core
  | .services =>
    if core.service.started then { core with part := .over }
    else { core with part := .running, service := { core.service with started := true } }
  | .stop => { core with part := .running, server := core.server.map SocketServer.stop }
  | _ => { core with part := .running }

/-- The rest of a part, which does nothing if it throws. The gate of a server is waited for. -/
def Core.endPart (core : Core) (c : DbConfig) (flag ok : Bool) : Phase → Option Core
  | .details => some (if ok then { core with part := .over, details := flag }
      else { core with part := .over })
  | .services => some (if ok then { core with part := .over, service := core.service.startStore c }
      else { core with part := .over })
  | .servers => some (if ok then { core with part := .over, server := some {} }
      else { core with part := .over })
  | .handlers => some (if ok then
        { core with
          part := .over
          server := core.server.map fun s => { s with handlerFactory := true } }
      else { core with part := .over })
  | .listen => some (if ok then
        { core with part := .over, server := core.server.map SocketServer.listen }
      else { core with part := .over })
  | .stop =>
    if core.server.all fun s => s.taskGate.count = 0 then some { core with part := .over }
    else none
  | .destroy => some { core with part := .over, server := none }
  | .counters => some { core with part := .over }

structure Process where
  pc : InitPc := .phase .details
  /-- The phase with an exception. -/
  thrown : Option Phase := none
  /-- `as.request_abort()` was called. -/
  aborted : Bool := false
  cores : List Core
  /-- The shards of the calls on their way. -/
  transit : List ℕ := []

def Process.init (smp : ℕ) : Process := { cores := List.replicate smp {} }

inductive Act
  /-- shard `j` begins with its part -/
  | begin (j : ℕ)
  | finish (j : ℕ) (ok : Bool)
  /-- all parts are over -/
  | next
  /-- `SIGINT` or `SIGTERM` -/
  | signal
  /-- the sleep is aborted -/
  | wake
  /-- an action of the server of shard `j` -/
  | server (j : ℕ) (a : ServerAct)
  /-- connection `c` of shard `i` makes a call to shard `j` -/
  | issue (i c j : ℕ)
  /-- a call on its way arrives -/
  | arrive (j k : ℕ) (call : Call) (now : ℕ)
  /-- a call goes on -/
  | resume (j t now later : ℕ)

def ofClients : ServerAct → Bool
  | .setHandler => false
  | .listen => false
  | .stop => false
  | _ => true

def handsOver (conn : Connection) : Bool :=
  match conn.pc with
  | .looping true _ => true
  | _ => false

namespace Process

def setCore (P : Process) (j : ℕ) (core : Core) : Process := { P with cores := P.cores.set j core }

/-- The configurations are those that `config` gives on each shard; `dflt` is the one that
`ensure_started` makes. -/
def act (cfg : ℕ → DbConfig) (flag : Bool) (dflt : DbConfig) (P : Process) : Act → Option Process
  | .begin j =>
    match P.pc with
    | .phase ph => P.cores[j]?.bind fun core =>
      if core.part = .waiting then some (P.setCore j (core.beginPart ph)) else none
    | _ => none
  | .finish j ok =>
    match P.pc with
    | .phase ph => P.cores[j]?.bind fun core =>
      if core.part = .running then
        (core.endPart (cfg j) flag ok ph).map fun core =>
          { P.setCore j core with
            thrown := if P.thrown = none ∧ ok = false then some ph else P.thrown }
      else none
    | _ => none
  | .next =>
    match P.pc with
    | .phase ph =>
      if ∀ core ∈ P.cores, core.part = .over then
        some { P with
          pc := ph.next P.thrown.isSome
          cores := P.cores.map fun core => { core with part := .waiting } }
      else none
    | _ => none
  | .signal => some { P with aborted := true }
  | .wake =>
    if P.pc = .sleeping ∧ P.aborted = true then some { P with pc := .phase .stop } else none
  | .server j a =>
    P.cores[j]?.bind fun core => core.server.bind fun s =>
      if ofClients a then
        ({ s with sendShardDetails := core.details }.act a).map fun s =>
          P.setCore j { core with server := some s }
      else none
  | .issue i c j =>
    (P.cores[i]?.bind Core.server).bind fun s => s.conns[c]?.bind fun conn =>
      if handsOver conn ∧ j < P.cores.length then some { P with transit := P.transit ++ [j] }
      else none
  | .arrive j k call now =>
    if P.transit[k]? = some j then
      P.cores[j]?.bind fun core =>
        (core.service.step dflt (.call (.arrive call now))).map fun svc =>
          { P.setCore j { core with service := svc } with transit := P.transit.eraseIdx k }
    else none
  | .resume j t now later =>
    P.cores[j]?.bind fun core =>
      (core.service.step dflt (.call (.resume t now later))).map fun svc =>
        P.setCore j { core with service := svc }

end Process

def Act.at (j : ℕ) : Act → Option Shard.Action
  | .arrive i _ call now => if i = j then some (.arrive call now) else none
  | .resume i t now later => if i = j then some (.resume t now later) else none
  | _ => none

def callsAt (j : ℕ) (acts : List Act) : List Shard.Action := acts.filterMap (Act.at j)

/-! ### One action -/

inductive Does (cfg : ℕ → DbConfig) (flag : Bool) (dflt : DbConfig) (P : Process) :
    Act → Process → Prop
  | begin {j : ℕ} {ph : Phase} {core : Core} (hpc : P.pc = .phase ph)
    (hj : P.cores[j]? = some core) (hpart : core.part = .waiting) :
    Does cfg flag dflt P (.begin j) (P.setCore j (core.beginPart ph))
  | finish {j : ℕ} {ok : Bool} {ph : Phase} {core core' : Core} (hpc : P.pc = .phase ph)
    (hj : P.cores[j]? = some core) (hpart : core.part = .running)
    (hend : core.endPart (cfg j) flag ok ph = some core') :
    Does cfg flag dflt P (.finish j ok)
      { P.setCore j core' with
        thrown := if P.thrown = none ∧ ok = false then some ph else P.thrown }
  | next {ph : Phase} (hpc : P.pc = .phase ph) (hover : ∀ core ∈ P.cores, core.part = .over) :
    Does cfg flag dflt P .next
      { P with
        pc := ph.next P.thrown.isSome
        cores := P.cores.map fun core => { core with part := .waiting } }
  | signal : Does cfg flag dflt P .signal { P with aborted := true }
  | wake (hpc : P.pc = .sleeping) (haborted : P.aborted = true) :
    Does cfg flag dflt P .wake { P with pc := .phase .stop }
  | server {j : ℕ} {a : ServerAct} {core : Core} {s t : SocketServer} (hj : P.cores[j]? = some core)
    (hs : core.server = some s) (ha : ofClients a = true)
    (hact : { s with sendShardDetails := core.details }.act a = some t) :
    Does cfg flag dflt P (.server j a) (P.setCore j { core with server := some t })
  | issue {i c j : ℕ} {core : Core} {s : SocketServer} {conn : Connection}
    (hi : P.cores[i]? = some core) (hs : core.server = some s) (hc : s.conns[c]? = some conn) :
    Does cfg flag dflt P (.issue i c j) { P with transit := P.transit ++ [j] }
  | arrive {j k now : ℕ} {call : Call} {core : Core} {svc : Service}
    (hk : P.transit[k]? = some j) (hj : P.cores[j]? = some core)
    (hstep : core.service.step dflt (.call (.arrive call now)) = some svc) :
    Does cfg flag dflt P (.arrive j k call now)
      { P.setCore j { core with service := svc } with transit := P.transit.eraseIdx k }
  | resume {j t now later : ℕ} {core : Core} {svc : Service} (hj : P.cores[j]? = some core)
    (hstep : core.service.step dflt (.call (.resume t now later)) = some svc) :
    Does cfg flag dflt P (.resume j t now later) (P.setCore j { core with service := svc })

section

variable {cfg : ℕ → DbConfig} {flag : Bool} {dflt : DbConfig} {P Q : Process} {a : Act}

lemma does_of_act (h : P.act cfg flag dflt a = some Q) : Does cfg flag dflt P a Q := by
  cases a with
  | begin j =>
    rcases hpc : P.pc with ph | _ | _ <;> simp only [Process.act, hpc] at h
    · obtain ⟨core, hj, hcore⟩ := Option.bind_eq_some_iff.mp h
      obtain ⟨hpart, ⟨⟩⟩ := Option.ite_none_right_eq_some.mp hcore
      exact .begin hpc hj hpart
    · cases h
    · cases h
  | finish j ok =>
    rcases hpc : P.pc with ph | _ | _ <;> simp only [Process.act, hpc] at h
    · obtain ⟨core, hj, hcore⟩ := Option.bind_eq_some_iff.mp h
      obtain ⟨hpart, hcore⟩ := Option.ite_none_right_eq_some.mp hcore
      obtain ⟨core', hend, rfl⟩ := Option.map_eq_some_iff.mp hcore
      exact .finish hpc hj hpart hend
    · cases h
    · cases h
  | next =>
    rcases hpc : P.pc with ph | _ | _ <;> simp only [Process.act, hpc] at h
    · obtain ⟨hover, ⟨⟩⟩ := Option.ite_none_right_eq_some.mp h
      exact .next hpc hover
    · cases h
    · cases h
  | signal =>
    cases h
    exact .signal
  | wake =>
    obtain ⟨⟨hpc, haborted⟩, ⟨⟩⟩ := Option.ite_none_right_eq_some.mp h
    exact .wake hpc haborted
  | server j a =>
    obtain ⟨core, hj, hcore⟩ := Option.bind_eq_some_iff.mp h
    obtain ⟨s, hs, hcore⟩ := Option.bind_eq_some_iff.mp hcore
    obtain ⟨ha, hcore⟩ := Option.ite_none_right_eq_some.mp hcore
    obtain ⟨t, hact, rfl⟩ := Option.map_eq_some_iff.mp hcore
    exact .server hj hs ha hact
  | issue i c j =>
    obtain ⟨s, hs, hconn⟩ := Option.bind_eq_some_iff.mp h
    obtain ⟨core, hi, hs⟩ := Option.bind_eq_some_iff.mp hs
    obtain ⟨conn, hc, hconn⟩ := Option.bind_eq_some_iff.mp hconn
    obtain ⟨-, ⟨⟩⟩ := Option.ite_none_right_eq_some.mp hconn
    exact .issue hi hs hc
  | arrive j k call now =>
    obtain ⟨hk, hcore⟩ := Option.ite_none_right_eq_some.mp h
    obtain ⟨core, hj, hcore⟩ := Option.bind_eq_some_iff.mp hcore
    obtain ⟨svc, hstep, rfl⟩ := Option.map_eq_some_iff.mp hcore
    exact .arrive hk hj hstep
  | resume j t now later =>
    obtain ⟨core, hj, hcore⟩ := Option.bind_eq_some_iff.mp h
    obtain ⟨svc, hstep, rfl⟩ := Option.map_eq_some_iff.mp hcore
    exact .resume hj hstep

lemma getElem?_setCore {i j : ℕ} {core x : Core} (h : (P.setCore j core).cores[i]? = some x) :
    i = j ∧ x = core ∨ i ≠ j ∧ P.cores[i]? = some x := by
  rcases eq_or_ne i j with rfl | hne
  · rw [Process.setCore, List.getElem?_set_self'] at h
    obtain ⟨-, -, rfl⟩ := Option.map_eq_some_iff.mp h
    exact .inl ⟨rfl, rfl⟩
  · rw [Process.setCore, List.getElem?_set_ne hne.symm] at h
    exact .inr ⟨hne, h⟩

end

/-! ### Phases -/

def Phase.rank : Phase → ℕ
  | .details => 0
  | .services => 1
  | .servers => 2
  | .handlers => 3
  | .listen => 4
  | .stop => 6
  | .destroy => 7
  | .counters => 8

def InitPc.rank : InitPc → ℕ
  | .phase ph => ph.rank
  | .sleeping => 5
  | .returned => 9

/-- Phase `ph` is over, and no exception has kept it from its end. -/
def Past (pc : InitPc) (thrown : Option Phase) (ph : Phase) : Prop :=
  ph.rank < pc.rank ∧ ∀ q, thrown = some q → ph.rank < q.rank

/-- A shard with its part at `part` is done with phase `ph`. -/
def Done (pc : InitPc) (thrown : Option Phase) (part : Part) (ph : Phase) : Prop :=
  Past pc thrown ph ∨ pc = .phase ph ∧ part = .over ∧ thrown = none

/-- After an exception `init` goes on with `stop`. -/
def Caught (pc : InitPc) (thrown : Option Phase) : Prop :=
  ∀ q, thrown = some q → pc = .phase q ∨ 6 ≤ pc.rank

section Phases

variable {pc : InitPc} {thrown : Option Phase} {ph cur : Phase} {part : Part} {ok : Bool}

/-- The exception after a part of phase `cur`. -/
abbrev thrownBy (cur : Phase) (thrown : Option Phase) (ok : Bool) : Option Phase :=
  if thrown = none ∧ ok = false then some cur else thrown

lemma Past.mono {ph' : Phase} (h : Past pc thrown ph) (hle : ph'.rank ≤ ph.rank) :
    Past pc thrown ph' :=
  ⟨Nat.lt_of_le_of_lt hle h.1, fun q hq => Nat.lt_of_le_of_lt hle (h.2 q hq)⟩

lemma past_of_done (hpart : part ≠ .over) (h : Done pc thrown part ph) : Past pc thrown ph :=
  h.resolve_right fun h => hpart h.2.1

lemma past_thrownBy : Past (.phase cur) (thrownBy cur thrown ok) ph ↔
    Past (.phase cur) thrown ph := by
  unfold thrownBy
  split
  · next h =>
    rw [h.1]
    refine and_congr_right fun hlt => ⟨fun _ q hq => (nomatch hq), fun _ q hq => ?_⟩
    cases hq
    exact hlt
  · rfl

lemma eq_none_of_thrownBy (h : thrownBy cur thrown ok = none) : thrown = none ∧ ok = true := by
  unfold thrownBy at h
  split at h
  · cases h
  · next hnot =>
    refine ⟨h, ?_⟩
    cases ok
    · exact absurd ⟨h, rfl⟩ hnot
    · rfl

lemma done_of_thrownBy (h : Done (.phase cur) (thrownBy cur thrown ok) part ph) :
    Past (.phase cur) thrown ph ∨ ph = cur ∧ ok = true ∧ part = .over ∧ thrown = none := by
  rcases h with h | ⟨hcur, hpart, hnone⟩
  · exact .inl (past_thrownBy.mp h)
  · obtain ⟨h1, h2⟩ := eq_none_of_thrownBy hnone
    exact .inr ⟨(InitPc.phase.inj hcur).symm, h2, hpart, h1⟩

lemma rank_lt_next (cur : Phase) (b : Bool) : cur.rank < (cur.next b).rank := by
  cases cur <;> cases b <;> decide

lemma six_le_rank_next (cur : Phase) : 6 ≤ (cur.next true).rank := by
  cases cur <;> decide

/-- **The barrier.** A phase of the startup that has come to an end is one that all shards are
done with. -/
lemma past_next (hcaught : Caught (.phase cur) thrown) (hph : ph.rank ≤ 4) :
    Past (cur.next thrown.isSome) thrown ph ↔ Done (.phase cur) thrown .over ph := by
  cases thrown with
  | none =>
    cases cur <;> cases ph <;> simp [Past, Done, Phase.next, Phase.rank, InitPc.rank] at hph ⊢
  | some q =>
    have hnext := six_le_rank_next cur
    have hcur : ph.rank < q.rank → ph.rank < cur.rank := by
      rcases hcaught q rfl with h | h
      · cases h
        exact id
      · intro _
        have h : 6 ≤ cur.rank := h
        omega
    simp only [Past, Done, Option.isSome_some, Option.some.injEq, forall_eq', reduceCtorEq,
      and_false, or_false]
    exact ⟨fun h => ⟨hcur h.2, h.2⟩, fun h => ⟨by omega, h.2⟩⟩

lemma caught_next (hcaught : Caught (.phase cur) thrown) :
    Caught (cur.next thrown.isSome) thrown := by
  rintro q rfl
  exact .inr (six_le_rank_next cur)

lemma caught_thrownBy (hcaught : Caught (.phase cur) thrown) :
    Caught (.phase cur) (thrownBy cur thrown ok) := by
  unfold thrownBy
  split
  · rintro q ⟨⟩
    exact .inl rfl
  · exact hcaught

lemma past_stop (hph : ph.rank ≤ 4) : Past (.phase .stop) thrown ph ↔ Past .sleeping thrown ph := by
  refine and_congr_left fun _ => ?_
  change ph.rank < 6 ↔ ph.rank < 5
  omega

end Phases

/-! ### Services -/

/-- The service of a shard is started with its configuration, and has served these calls. -/
structure Core.Up (core : Core) (c : DbConfig) (calls : List Shard.Action) : Prop where
  started : core.service.started = true
  cfg : core.service.cfg = c.config
  reactor : runs (Reactor.act c.config) (Reactor.fresh c.config) calls = some core.service.reactor

/-- The service of a shard, depending on the phase. -/
structure Core.Attends (core : Core) (c : DbConfig) (calls : List Shard.Action) (pc : InitPc)
    (thrown : Option Phase) : Prop where
  up : Done pc thrown core.part .services → core.Up c calls
  unused : ¬ Past pc thrown .handlers → calls = [] ∧ core.service.reactor.tasks = []
  new : pc = .phase .details ∨ pc = .phase .services ∧ core.part = .waiting → core.service = .new
  running : pc = .phase .services → core.part = .running →
    core.service = { Service.new with started := true }

section Services

variable {core core' : Core} {c dflt : DbConfig} {calls : List Shard.Action} {pc : InitPc}
  {thrown : Option Phase} {cur : Phase} {x : Shard.Action} {svc : Service} {flag ok : Bool}

/-- **A call to a service that is up.** The default configuration is not used. -/
lemma Core.Up.step (h : core.Up c calls) (hstep : core.service.step dflt (.call x) = some svc) :
    Core.Up { core with service := svc } c (calls ++ [x]) := by
  have hperform : core.service.perform x = some svc := by
    cases x with
    | arrive call now =>
      have hsame : core.service.ensureStarted dflt = core.service := if_pos h.started
      rwa [Service.step, hsame] at hstep
    | resume t now later => exact hstep
  obtain ⟨σ, hσ, rfl⟩ := Option.map_eq_some_iff.mp hperform
  rw [h.cfg] at hσ
  refine ⟨h.started, h.cfg, ?_⟩
  rw [runs_append, h.reactor, Option.bind_some, runs_cons, hσ]
  rfl

lemma beginPart_service (hcur : cur ≠ .services) : (core.beginPart cur).service = core.service := by
  cases cur <;> first | rfl | exact absurd rfl hcur

lemma endPart_service (hcur : cur ≠ .services) (h : core.endPart c flag ok cur = some core') :
    core'.service = core.service := by
  cases cur <;> cases ok <;> simp only [Core.endPart] at h <;>
    first | exact absurd rfl hcur | (split at h <;> cases h <;> rfl) | (cases h; rfl)

lemma Core.Up.congr (h : core.Up c calls) (hservice : core'.service = core.service) :
    core'.Up c calls := by
  obtain ⟨h1, h2, h3⟩ := h
  rw [← hservice] at h1 h2 h3
  exact ⟨h1, h2, h3⟩

lemma not_past_self (thrown : Option Phase) : ¬ Past (.phase cur) thrown cur :=
  fun h => Nat.lt_irrefl _ h.1

/-- A store is set up by its own shard only, after the service counts as started. -/
lemma Core.Attends.begin (h : core.Attends c calls (.phase cur) thrown)
    (hpart : core.part = .waiting) :
    (core.beginPart cur).Attends c calls (.phase cur) thrown := by
  rcases eq_or_ne cur .services with rfl | hcur
  · have hnew := h.new (.inr ⟨rfl, hpart⟩)
    have hbegin : core.beginPart .services =
        { core with part := .running, service := { core.service with started := true } } := by
      simp [Core.beginPart, hnew, Service.new]
    rw [hbegin, hnew]
    refine ⟨fun hdone => ?_, fun hpast => ⟨(h.unused hpast).1, rfl⟩, by simp, fun _ _ => rfl⟩
    exact absurd (past_of_done (by simp) hdone) (not_past_self thrown)
  · have hservice : (core.beginPart cur).service = core.service := beginPart_service hcur
    have hrunning : (core.beginPart cur).part = .running := by
      cases cur <;> first | rfl | exact absurd rfl hcur
    refine ⟨fun hdone => ?_, ?_, ?_, fun hpc => absurd (InitPc.phase.inj hpc) hcur⟩
    · rw [hrunning] at hdone
      exact (h.up (.inl (past_of_done (by simp) hdone))).congr hservice
    · rw [hservice]
      exact h.unused
    · rintro (hpc | ⟨hpc, -⟩)
      · rw [hservice]
        exact h.new (.inl hpc)
      · exact absurd (InitPc.phase.inj hpc) hcur

lemma Core.Attends.thrownBy (h : core.Attends c calls (.phase cur) thrown) (ok : Bool) :
    core.Attends c calls (.phase cur) (thrownBy cur thrown ok) := by
  refine ⟨fun hdone => h.up ?_, fun hpast => h.unused (mt past_thrownBy.mpr hpast), h.new,
    h.running⟩
  rcases done_of_thrownBy hdone with hpast | ⟨rfl, -, hpart, hnone⟩
  · exact .inl hpast
  · exact .inr ⟨rfl, hpart, hnone⟩

lemma endPart_part (h : core.endPart c flag ok cur = some core') : core'.part = .over := by
  cases cur <;> cases ok <;> simp only [Core.endPart] at h <;>
    first | (split at h <;> cases h <;> rfl) | (cases h; rfl)

lemma Core.Attends.finish (h : core.Attends c calls (.phase cur) thrown)
    (hpart : core.part = .running) (hend : core.endPart c flag ok cur = some core') :
    core'.Attends c calls (.phase cur) (Main.thrownBy cur thrown ok) := by
  have hover := endPart_part hend
  rcases eq_or_ne cur .services with rfl | hcur
  · have hstarted := h.running rfl hpart
    obtain ⟨hcalls, htasks⟩ := h.unused fun hpast => absurd hpast.1 (by decide)
    refine ⟨fun hdone => ?_, fun _ => ⟨hcalls, ?_⟩, ?_, fun _ hrun => ?_⟩
    · rcases done_of_thrownBy hdone with hpast | ⟨-, rfl, -, -⟩
      · exact absurd hpast (not_past_self thrown)
      · cases hend
        rw [hstarted, hcalls]
        exact ⟨rfl, rfl, rfl⟩
    · cases ok <;> cases hend
      · exact htasks
      · rw [hstarted]
        rfl
    · rw [hover]
      simp
    · rw [hover] at hrun
      cases hrun
  · have hservice := endPart_service hcur hend
    refine ⟨fun hdone => ?_, ?_, ?_, fun hpc => absurd (InitPc.phase.inj hpc) hcur⟩
    · rcases done_of_thrownBy hdone with hpast | ⟨heq, -⟩
      · exact (h.up (.inl hpast)).congr hservice
      · exact absurd heq.symm hcur
    · rw [past_thrownBy, hservice]
      exact h.unused
    · rintro (hpc | ⟨hpc, -⟩)
      · rw [hservice]
        exact h.new (.inl hpc)
      · exact absurd (InitPc.phase.inj hpc) hcur

lemma Core.Attends.next (h : core.Attends c calls (.phase cur) thrown)
    (hcaught : Caught (.phase cur) thrown) (hpart : core.part = .over) :
    Core.Attends { core with part := .waiting } c calls (cur.next thrown.isSome) thrown := by
  refine ⟨fun hdone => ?_, fun hnot => h.unused fun hpast => hnot ?_, ?_, by simp⟩
  · refine Core.Up.congr (h.up ?_) rfl
    rw [hpart]
    exact (past_next hcaught (by decide)).mp (past_of_done (by simp) hdone)
  · exact (past_next hcaught (by decide)).mpr (.inl hpast)
  · intro hnew
    refine h.new (.inl ?_)
    cases cur <;> cases thrown <;> simp [Phase.next] at hnew ⊢

lemma Core.Attends.wake (h : core.Attends c calls .sleeping thrown) :
    core.Attends c calls (.phase .stop) thrown := by
  refine ⟨fun hdone => h.up ?_, fun hnot => h.unused fun hpast => hnot ?_, by simp, by simp⟩
  · rcases hdone with hpast | ⟨hpc, -⟩
    · exact .inl ((past_stop (by decide)).mp hpast)
    · cases hpc
  · exact (past_stop (by decide)).mpr hpast

lemma Core.Attends.step (h : core.Attends c calls pc thrown) (hpast : Past pc thrown .handlers)
    (hstep : core.service.step dflt (.call x) = some svc) :
    Core.Attends { core with service := svc } c (calls ++ [x]) pc thrown := by
  have hup := h.up (.inl (hpast.mono (by decide)))
  have hrank : 3 < pc.rank := hpast.1
  refine ⟨fun _ => hup.step hstep, fun hnot => absurd hpast hnot, ?_, ?_⟩
  · rintro (rfl | ⟨rfl, -⟩)
    · exact absurd hrank (by decide)
    · exact absurd hrank (by decide)
  · rintro rfl
    exact absurd hrank (by decide)

lemma Core.Attends.past_of_resume {t now later : ℕ} (h : core.Attends c calls pc thrown)
    (hstep : core.service.step dflt (.call (.resume t now later)) = some svc) :
    Past pc thrown .handlers := by
  by_contra hnot
  obtain ⟨σ, hσ, -⟩ := Option.map_eq_some_iff.mp hstep
  simp [Reactor.act, (h.unused hnot).2] at hσ

end Services

/-! ### Servers -/

/-- The server of a shard, depending on the phase: it listens only when all shards are done with
their handlers. -/
structure Core.Opens (core : Core) (flag : Bool) (pc : InitPc) (thrown : Option Phase) : Prop where
  details : Done pc thrown core.part .details → core.details = flag
  absent : pc.rank ≤ 1 → core.server = none
  present : Done pc thrown core.part .servers → pc.rank ≤ 5 → core.server ≠ none
  handlers : Done pc thrown core.part .handlers →
    ∀ s, core.server = some s → s.handlerFactory = true
  quiet : ∀ s, core.server = some s → s.loops ≠ [] ∨ s.conns ≠ [] → Past pc thrown .handlers
  listeners : Done pc thrown core.part .listen → pc.rank ≤ 5 →
    ∀ s, core.server = some s → s.loops ≠ []

section Servers

variable {core core' : Core} {c : DbConfig} {pc : InitPc} {thrown : Option Phase} {cur : Phase}
  {flag ok : Bool} {s t : SocketServer} {a : ServerAct}

/-- A server with the handler it had, which listens if it did. -/
structure Alike (s t : SocketServer) : Prop where
  handlerFactory : t.handlerFactory = s.handlerFactory
  loops : t.loops = [] ↔ s.loops = []
  conns : t.conns ≠ [] → s.loops ≠ [] ∨ s.conns ≠ []

lemma alike_refl (s : SocketServer) : Alike s s := ⟨rfl, Iff.rfl, .inr⟩

lemma alike_stop (s : SocketServer) : Alike s s.stop :=
  ⟨rfl, List.map_eq_nil_iff, fun h => .inr (mt List.map_eq_nil_iff.mpr h)⟩

lemma handlerFactory_acceptOne (s : SocketServer) (ok : Bool) :
    (s.acceptOne ok).handlerFactory = s.handlerFactory := by
  unfold SocketServer.acceptOne
  split
  · rfl
  · split
    · rfl
    · dsimp only
      split <;> rfl

lemma alike_of_ofClients (ha : ofClients a = true) (hact : s.act a = some t) : Alike s t := by
  have hset {l : ℕ} {q : AcceptPc} (q' : AcceptPc) (hl : s.loops[l]? = some q) :
      (s.loops.set l q' = [] ↔ s.loops = []) ∧ s.loops ≠ [] := by
    refine ⟨List.set_eq_nil_iff .., ?_⟩
    rintro hnil
    simp [hnil] at hl
  cases does_of_server hact with
  | setHandler => cases ha
  | listen => cases ha
  | stop => cases ha
  | @acceptOne l o hl =>
    exact ⟨handlerFactory_acceptOne s o, (hset _ hl).1, fun _ => .inl (hset .settled hl).2⟩
  | accept hl => exact ⟨rfl, (hset _ hl).1, .inr⟩
  | settle hl => exact ⟨rfl, (hset _ hl).1, .inr⟩
  | again hl => exact ⟨rfl, (hset _ hl).1, .inr⟩
  | refused hl => exact ⟨rfl, (hset _ hl).1, .inr⟩
  | leave hl => exact ⟨rfl, (hset _ hl).1, .inr⟩
  | move => exact ⟨rfl, Iff.rfl, fun h => .inr (mt (List.set_eq_nil_iff ..).mpr h)⟩
  | destroy => exact ⟨rfl, Iff.rfl, fun h => .inr (mt (List.set_eq_nil_iff ..).mpr h)⟩
  | back => exact ⟨rfl, Iff.rfl, fun h => .inr (mt (List.set_eq_nil_iff ..).mpr h)⟩

lemma Core.Opens.alike {thrown' : Option Phase} (h : core.Opens flag pc thrown)
    (hdetails : core'.details = core.details)
    (hserver : ∀ t, core'.server = some t → ∃ s, core.server = some s ∧ Alike s t)
    (hnone : core'.server = none → core.server = none)
    (hdone : ∀ ph, ph.rank ≤ 4 → ph ≠ .services → Done pc thrown' core'.part ph →
      Done pc thrown core.part ph)
    (hpast : Past pc thrown .handlers → Past pc thrown' .handlers) :
    core'.Opens flag pc thrown' where
  details hd := hdetails.trans (h.details (hdone _ (by decide) (by decide) hd))
  absent hrank := by
    rcases hs : core'.server with _ | t
    · rfl
    · obtain ⟨s, hs, -⟩ := hserver t hs
      rw [h.absent hrank] at hs
      cases hs
  present hd hrank := fun hs => h.present (hdone _ (by decide) (by decide) hd) hrank (hnone hs)
  handlers hd t ht := by
    obtain ⟨s, hs, hst⟩ := hserver t ht
    exact hst.handlerFactory.trans (h.handlers (hdone _ (by decide) (by decide) hd) s hs)
  quiet t ht hne := by
    obtain ⟨s, hs, hst⟩ := hserver t ht
    refine hpast (h.quiet s hs ?_)
    rcases hne with hne | hne
    · exact .inl (mt hst.loops.mpr hne)
    · exact hst.conns hne
  listeners hd hrank t ht := by
    obtain ⟨s, hs, hst⟩ := hserver t ht
    exact mt hst.loops.mp (h.listeners (hdone _ (by decide) (by decide) hd) hrank s hs)

lemma Core.Opens.begin (h : core.Opens flag (.phase cur) thrown) :
    (core.beginPart cur).Opens flag (.phase cur) thrown := by
  refine h.alike ?_ ?_ ?_ ?_ id
  · cases cur <;> first | rfl | (unfold Core.beginPart; dsimp only; split <;> rfl)
  · intro t ht
    cases cur
    case stop =>
      obtain ⟨s, hs, rfl⟩ := Option.map_eq_some_iff.mp ht
      exact ⟨s, hs, alike_stop s⟩
    case services =>
      refine ⟨t, ?_, alike_refl t⟩
      simp only [Core.beginPart] at ht
      split at ht <;> exact ht
    all_goals exact ⟨t, ht, alike_refl t⟩
  · intro hs
    cases cur
    case stop => exact Option.map_eq_none_iff.mp hs
    case services =>
      simp only [Core.beginPart] at hs
      split at hs <;> exact hs
    all_goals exact hs
  · intro ph _ hph hd
    rcases hd with hpast | ⟨hcur, hpart, -⟩
    · exact .inl hpast
    · cases InitPc.phase.inj hcur
      cases cur <;> first | exact absurd rfl hph | cases hpart

lemma Core.Opens.thrownBy (h : core.Opens flag (.phase cur) thrown) (ok : Bool) :
    core.Opens flag (.phase cur) (thrownBy cur thrown ok) := by
  refine h.alike rfl (fun t ht => ⟨t, ht, alike_refl t⟩) id (fun ph _ _ hd => ?_) past_thrownBy.mpr
  rcases done_of_thrownBy hd with hpast | ⟨rfl, -, hpart, hnone⟩
  · exact .inl hpast
  · exact .inr ⟨rfl, hpart, hnone⟩

lemma Core.Opens.finish_same (h : core.Opens flag (.phase cur) thrown)
    (hdetails : core'.details = core.details) (hserver : core'.server = core.server)
    (hcur : ok = true → cur = .services ∨ 4 < cur.rank) :
    core'.Opens flag (.phase cur) (Main.thrownBy cur thrown ok) := by
  refine h.alike hdetails ?_ (fun hs => hserver ▸ hs) (fun ph hrank hph hd => ?_) past_thrownBy.mpr
  · rw [hserver]
    exact fun t ht => ⟨t, ht, alike_refl t⟩
  · rcases done_of_thrownBy hd with hpast | ⟨rfl, hok, -⟩
    · exact .inl hpast
    · rcases hcur hok with rfl | hlt
      · exact absurd rfl hph
      · omega

lemma past_of_done_thrownBy {ph : Phase} {part : Part} (hne : ph ≠ cur)
    (h : Done (.phase cur) (thrownBy cur thrown ok) part ph) : Past (.phase cur) thrown ph :=
  (done_of_thrownBy h).resolve_right fun h => hne h.1

/-- While a phase of the startup lasts, those before it are over. -/
lemma past_of_caught {ph : Phase} (hcaught : Caught (.phase cur) thrown) (hlt : ph.rank < cur.rank)
    (hcur : cur.rank ≤ 4) : Past (.phase cur) thrown ph := by
  refine ⟨hlt, fun q hq => ?_⟩
  rcases hcaught q hq with heq | hle
  · cases heq
    exact hlt
  · have hle : 6 ≤ cur.rank := hle
    omega

lemma loops_listen_ne_nil (s : SocketServer) : s.listen.loops ≠ [] := by
  unfold SocketServer.listen
  split <;> simp

lemma handlerFactory_listen (s : SocketServer) : s.listen.handlerFactory = s.handlerFactory := by
  unfold SocketServer.listen
  split <;> rfl

lemma Core.Opens.finish (h : core.Opens flag (.phase cur) thrown)
    (hcaught : Caught (.phase cur) thrown) (hend : core.endPart c flag ok cur = some core') :
    core'.Opens flag (.phase cur) (Main.thrownBy cur thrown ok) := by
  have hpast {ph : Phase} {part : Part} (hne : ph ≠ cur)
      (hd : Done (.phase cur) (Main.thrownBy cur thrown ok) part ph) :
      Done (.phase cur) thrown core.part ph := .inl (past_of_done_thrownBy hne hd)
  have hquiet (s : SocketServer) (hs : core.server = some s) (hne : s.loops ≠ [] ∨ s.conns ≠ []) :
      Past (.phase cur) (Main.thrownBy cur thrown ok) .handlers :=
    past_thrownBy.mpr (h.quiet s hs hne)
  cases cur with
  | details =>
    cases ok <;> cases hend
    · exact h.finish_same rfl rfl (by simp)
    · refine ⟨fun _ => rfl, h.absent, fun hd => h.present (hpast (by decide) hd),
        fun hd => h.handlers (hpast (by decide) hd), hquiet,
        fun hd => h.listeners (hpast (by decide) hd)⟩
  | services =>
    cases ok <;> cases hend
    · exact h.finish_same rfl rfl (by simp)
    · exact h.finish_same rfl rfl (by simp)
  | servers =>
    cases ok <;> cases hend
    · exact h.finish_same rfl rfl (by simp)
    · have hlate {ph : Phase} {part : Part} (hlt : 2 < ph.rank) (hne : ph ≠ .servers) :
          ¬ Done (.phase .servers) (Main.thrownBy .servers thrown true) part ph := by
        intro hd
        have hrank : ph.rank < 2 := (past_of_done_thrownBy hne hd).1
        omega
      refine ⟨fun hd => h.details (hpast (by decide) hd), by simp [InitPc.rank, Phase.rank],
        by simp, fun hd => absurd hd (hlate (by decide) (by decide)), ?_,
        fun hd => absurd hd (hlate (by decide) (by decide))⟩
      rintro s ⟨⟩ hne
      simp at hne
  | handlers =>
    cases ok <;> cases hend
    · exact h.finish_same rfl rfl (by simp)
    · refine ⟨fun hd => h.details (hpast (by decide) hd), by simp [InitPc.rank, Phase.rank],
        fun hd hrank => ?_, fun _ t ht => ?_, fun t ht hne => ?_, fun hd => ?_⟩
      · exact mt Option.map_eq_none_iff.mp (h.present (hpast (by decide) hd) hrank)
      · obtain ⟨s, -, rfl⟩ := Option.map_eq_some_iff.mp ht
        rfl
      · obtain ⟨s, hs, rfl⟩ := Option.map_eq_some_iff.mp ht
        exact hquiet s hs hne
      · have hrank : (4 : ℕ) < 3 := (past_of_done_thrownBy (by decide) hd).1
        omega
  | listen =>
    cases ok <;> cases hend
    · exact h.finish_same rfl rfl (by simp)
    · refine ⟨fun hd => h.details (hpast (by decide) hd), by simp [InitPc.rank, Phase.rank],
        fun hd hrank => ?_, fun hd t ht => ?_, fun _ _ _ => ?_, fun _ _ t ht => ?_⟩
      · exact mt Option.map_eq_none_iff.mp (h.present (hpast (by decide) hd) hrank)
      · obtain ⟨s, hs, rfl⟩ := Option.map_eq_some_iff.mp ht
        exact (handlerFactory_listen s).trans (h.handlers (hpast (by decide) hd) s hs)
      · exact past_thrownBy.mpr (past_of_caught hcaught (by decide) (by decide))
      · obtain ⟨s, -, rfl⟩ := Option.map_eq_some_iff.mp ht
        exact loops_listen_ne_nil s
  | stop =>
    obtain ⟨-, ⟨⟩⟩ := Option.ite_none_right_eq_some.mp hend
    exact h.finish_same rfl rfl fun _ => .inr (by decide)
  | destroy =>
    cases hend
    exact ⟨fun hd => h.details (hpast (by decide) hd), fun _ => rfl,
      by simp [InitPc.rank, Phase.rank], by simp, by simp, by simp⟩
  | counters =>
    cases hend
    exact h.finish_same rfl rfl fun _ => .inr (by decide)

lemma Core.Opens.next (h : core.Opens flag (.phase cur) thrown)
    (hcaught : Caught (.phase cur) thrown) (hpart : core.part = .over) :
    Core.Opens { core with part := .waiting } flag (cur.next thrown.isSome) thrown := by
  have hdone {ph : Phase} (hrank : ph.rank ≤ 4)
      (hd : Done (cur.next thrown.isSome) thrown .waiting ph) :
      Done (.phase cur) thrown core.part ph := by
    rw [hpart]
    exact (past_next hcaught hrank).mp (past_of_done (by simp) hd)
  have hle {n : ℕ} (hrank : (cur.next thrown.isSome).rank ≤ n) : (InitPc.phase cur).rank ≤ n :=
    (Nat.le_of_lt (rank_lt_next cur _)).trans hrank
  exact ⟨fun hd => h.details (hdone (by decide) hd), fun hrank => h.absent (hle hrank),
    fun hd hrank => h.present (hdone (by decide) hd) (hle hrank),
    fun hd => h.handlers (hdone (by decide) hd),
    fun s hs hne => (past_next hcaught (by decide)).mpr (.inl (h.quiet s hs hne)),
    fun hd hrank => h.listeners (hdone (by decide) hd) (hle hrank)⟩

lemma Core.Opens.wake (h : core.Opens flag .sleeping thrown) :
    core.Opens flag (.phase .stop) thrown := by
  have hdone {ph : Phase} (hrank : ph.rank ≤ 4) (hne : ph ≠ .stop)
      (hd : Done (.phase .stop) thrown core.part ph) : Done .sleeping thrown core.part ph := by
    refine .inl ((past_stop hrank).mp (hd.resolve_right fun h => hne ?_))
    exact (InitPc.phase.inj h.1).symm
  exact ⟨fun hd => h.details (hdone (by decide) (by decide) hd), by simp [InitPc.rank, Phase.rank],
    by simp [InitPc.rank, Phase.rank], fun hd => h.handlers (hdone (by decide) (by decide) hd),
    fun s hs hne => (past_stop (by decide)).mpr (h.quiet s hs hne),
    by simp [InitPc.rank, Phase.rank]⟩

lemma Core.Opens.server (h : core.Opens flag pc thrown) (hs : core.server = some s)
    (ha : ofClients a = true)
    (hact : { s with sendShardDetails := core.details }.act a = some t) :
    Core.Opens { core with server := some t } flag pc thrown := by
  have hst := alike_of_ofClients ha hact
  refine h.alike rfl ?_ (by simp) (fun _ _ _ hd => hd) id
  rintro t ⟨⟩
  exact ⟨s, hs, hst.handlerFactory, hst.loops, hst.conns⟩

end Servers

/-! ### Runs -/

structure Ordered (cfg : ℕ → DbConfig) (flag : Bool) (acts : List Act) (P : Process) : Prop where
  caught : Caught P.pc P.thrown
  transit : P.transit ≠ [] → Past P.pc P.thrown .handlers
  attends : ∀ j (core : Core), P.cores[j]? = some core →
    core.Attends (cfg j) (callsAt j acts) P.pc P.thrown
  opens : ∀ core ∈ P.cores, core.Opens flag P.pc P.thrown

section Runs

variable {cfg : ℕ → DbConfig} {flag : Bool} {dflt : DbConfig} {P Q : Process} {a : Act}
  {acts : List Act}

lemma ordered_init (smp : ℕ) : Ordered cfg flag [] (.init smp) := by
  have hnot (ph : Phase) (part : Part) (hpart : part ≠ .over) :
      ¬ Done (.phase .details) none part ph :=
    fun h => Nat.not_lt_zero _ (past_of_done hpart h).1
  refine ⟨by rintro q ⟨⟩, by simp [Process.init], fun j core hj => ?_, fun core hcore => ?_⟩
  · obtain ⟨-, rfl⟩ := List.mem_replicate.mp (List.mem_of_getElem? hj)
    exact ⟨fun h => absurd h (hnot _ _ (by decide)), fun _ => ⟨rfl, rfl⟩, fun _ => rfl, by simp⟩
  · obtain ⟨-, rfl⟩ := List.mem_replicate.mp hcore
    exact ⟨fun h => absurd h (hnot _ _ (by decide)), fun _ => rfl,
      fun h => absurd h (hnot _ _ (by decide)), by simp, by simp, by simp⟩

lemma callsAt_append_none {j : ℕ} (h : a.at j = none) :
    callsAt j (acts ++ [a]) = callsAt j acts := by
  simp [callsAt, h]

lemma callsAt_append_some {j : ℕ} {x : Shard.Action} (h : a.at j = some x) :
    callsAt j (acts ++ [a]) = callsAt j acts ++ [x] := by
  simp [callsAt, h]

/-- An action changes one shard, and may throw. -/
lemma Ordered.setCore (h : Ordered cfg flag acts P) {j : ℕ} {core' : Core}
    {thrown : Option Phase} {transit : List ℕ} (hcaught : Caught P.pc thrown)
    (htransit : transit ≠ [] → Past P.pc thrown .handlers)
    (hat : ∀ i, i ≠ j → a.at i = none)
    (hother : ∀ (core : Core) c calls, core.Attends c calls P.pc P.thrown →
      core.Attends c calls P.pc thrown)
    (hopens : ∀ core : Core, core.Opens flag P.pc P.thrown → core.Opens flag P.pc thrown)
    (hcore : core'.Attends (cfg j) (callsAt j (acts ++ [a])) P.pc thrown)
    (hcore' : core'.Opens flag P.pc thrown) :
    Ordered cfg flag (acts ++ [a])
      { P.setCore j core' with thrown := thrown, transit := transit } := by
  refine ⟨hcaught, htransit, fun i x hx => ?_, fun x hx => ?_⟩
  · rcases getElem?_setCore hx with ⟨rfl, rfl⟩ | ⟨hne, hx⟩
    · exact hcore
    · rw [callsAt_append_none (hat i hne)]
      exact hother x _ _ (h.attends i x hx)
  · rcases List.mem_or_eq_of_mem_set hx with hx | rfl
    · exact hopens x (h.opens x hx)
    · exact hcore'

/-- **Every action.** -/
lemma Ordered.act (h : Ordered cfg flag acts P) (ha : P.act cfg flag dflt a = some Q) :
    Ordered cfg flag (acts ++ [a]) Q := by
  have hsame {j : ℕ} (hat : a.at j = none) : callsAt j (acts ++ [a]) = callsAt j acts :=
    callsAt_append_none hat
  cases does_of_act ha with
  | @begin j ph core hpc hj hpart =>
    have hattends := h.attends j core hj
    have hopens := h.opens core (List.mem_of_getElem? hj)
    rw [hpc] at hattends hopens
    refine h.setCore h.caught h.transit (fun _ _ => rfl) (fun _ _ _ => id) (fun _ => id) ?_ ?_
    · rw [hsame rfl, hpc]
      exact hattends.begin hpart
    · rw [hpc]
      exact hopens.begin
  | @finish j ok ph core core' hpc hj hpart hend =>
    have hattends := h.attends j core hj
    have hopens := h.opens core (List.mem_of_getElem? hj)
    have hcaught := h.caught
    have htransit := h.transit
    rw [hpc] at hattends hopens hcaught htransit
    refine h.setCore ?_ ?_ (fun _ _ => rfl) ?_ ?_ ?_ ?_ <;> rw [hpc]
    · exact caught_thrownBy hcaught
    · exact fun hne => past_thrownBy.mpr (htransit hne)
    · exact fun core c calls hcore => hcore.thrownBy ok
    · exact fun core hcore => hcore.thrownBy ok
    · rw [hsame rfl]
      exact hattends.finish hpart hend
    · exact hopens.finish hcaught hend
  | @next ph hpc hover =>
    have hcaught := h.caught
    have htransit := h.transit
    rw [hpc] at hcaught htransit
    refine ⟨caught_next hcaught, fun hne => ?_, fun j x hx => ?_, fun x hx => ?_⟩
    · exact (past_next hcaught (by decide)).mpr (.inl (htransit hne))
    · rw [List.getElem?_map] at hx
      obtain ⟨core, hj, rfl⟩ := Option.map_eq_some_iff.mp hx
      have hattends := h.attends j core hj
      rw [hpc] at hattends
      rw [hsame rfl]
      exact hattends.next hcaught (hover core (List.mem_of_getElem? hj))
    · obtain ⟨core, hcore, rfl⟩ := List.mem_map.mp hx
      have hopens := h.opens core hcore
      rw [hpc] at hopens
      exact hopens.next hcaught (hover core hcore)
  | signal =>
    refine ⟨h.caught, h.transit, fun j core hj => ?_, h.opens⟩
    rw [hsame rfl]
    exact h.attends j core hj
  | wake hpc haborted =>
    obtain ⟨-, htransit, hattends, hopens⟩ := h
    rw [hpc] at htransit hattends hopens
    refine ⟨fun _ _ => .inr (Nat.le_refl 6), fun hne => ?_, fun j core hj => ?_,
      fun core hcore => ?_⟩
    · exact (past_stop (by decide)).mpr (htransit hne)
    · rw [hsame rfl]
      exact (hattends j core hj).wake
    · exact (hopens core hcore).wake
  | @server j b core s t hj hs hb hact =>
    refine h.setCore h.caught h.transit (fun _ _ => rfl) (fun _ _ _ => id) (fun _ => id) ?_ ?_
    · obtain ⟨h1, h2, h3, h4⟩ := h.attends j core hj
      rw [hsame rfl]
      exact ⟨fun hd => (h1 hd).congr rfl, h2, h3, h4⟩
    · exact (h.opens core (List.mem_of_getElem? hj)).server hs hb hact
  | @issue i c j core s conn hi hs hc =>
    refine ⟨h.caught, fun _ => ?_, fun j core hj => ?_, h.opens⟩
    · refine (h.opens core (List.mem_of_getElem? hi)).quiet s hs (.inr ?_)
      rintro hnil
      simp [hnil] at hc
    · rw [hsame rfl]
      exact h.attends j core hj
  | @arrive j k now call core svc hk hj hstep =>
    have hpast := h.transit (List.ne_nil_of_mem (List.mem_of_getElem? hk))
    refine h.setCore h.caught (fun _ => hpast) ?_ (fun _ _ _ => id) (fun _ => id) ?_ ?_
    · exact fun i hne => if_neg hne.symm
    · rw [callsAt_append_some (by exact if_pos rfl)]
      exact (h.attends j core hj).step hpast hstep
    · obtain ⟨h1, h2, h3, h4, h5, h6⟩ := h.opens core (List.mem_of_getElem? hj)
      exact ⟨h1, h2, h3, h4, h5, h6⟩
  | @resume j t now later core svc hj hstep =>
    have hattends := h.attends j core hj
    refine h.setCore h.caught h.transit ?_ (fun _ _ _ => id) (fun _ => id) ?_ ?_
    · exact fun i hne => if_neg hne.symm
    · rw [callsAt_append_some (by exact if_pos rfl)]
      exact hattends.step (hattends.past_of_resume hstep) hstep
    · obtain ⟨h1, h2, h3, h4, h5, h6⟩ := h.opens core (List.mem_of_getElem? hj)
      exact ⟨h1, h2, h3, h4, h5, h6⟩

/-- **Every run.** -/
lemma ordered_runs {smp : ℕ}
    (h : runs (Process.act cfg flag dflt) (.init smp) acts = some P) : Ordered cfg flag acts P :=
  runs_history (I := Ordered cfg flag) (fun _ _ _ _ hI ha => hI.act ha) (ordered_init smp) h

/-- A shard listens or has a connection, or a call is on its way to a shard or has come there. -/
def Serves (acts : List Act) (P : Process) : Prop :=
  P.transit ≠ [] ∨ (∃ j < P.cores.length, callsAt j acts ≠ []) ∨
    ∃ core ∈ P.cores, ∃ s, core.server = some s ∧ (s.loops ≠ [] ∨ s.conns ≠ [])

lemma Ordered.past_of_serves (h : Ordered cfg flag acts P) (hserves : Serves acts P) :
    Past P.pc P.thrown .handlers := by
  rcases hserves with htransit | ⟨j, hlt, hcalls⟩ | ⟨core, hcore, s, hs, hopen⟩
  · exact h.transit htransit
  · by_contra hnot
    exact hcalls ((h.attends j _ (List.getElem?_eq_getElem hlt)).unused hnot).1
  · exact (h.opens core hcore).quiet s hs hopen

lemma Ordered.past_of_sleeping (h : Ordered cfg flag acts P) (hpc : P.pc = .sleeping) {ph : Phase}
    (hph : ph.rank ≤ 4) : Past P.pc P.thrown ph := by
  have hcaught := h.caught
  rw [hpc] at hcaught ⊢
  refine ⟨Nat.lt_succ_of_le hph, fun q hq => ?_⟩
  rcases hcaught q hq with heq | hle
  · cases heq
  · exact absurd hle (by decide)

/-- **No shard serves before all shards are started.** From the first listener on, every service
is started with the configuration of the process, and is where this configuration and its calls
have brought it; connections are greeted as the process is configured, and find a handler. When
`init` sleeps, all shards listen. -/
theorem startup_before_service {smp : ℕ}
    (h : runs (Process.act cfg flag dflt) (.init smp) acts = some P) :
    (Serves acts P → ∀ j (core : Core), P.cores[j]? = some core →
      core.Up (cfg j) (callsAt j acts) ∧ core.details = flag ∧
        ∀ s, core.server = some s → s.handlerFactory = true) ∧
      (P.pc = .sleeping → ∀ core ∈ P.cores, ∃ s, core.server = some s ∧ s.loops ≠ []) := by
  have hordered := ordered_runs h
  refine ⟨fun hserves j core hj => ?_, fun hpc core hcore => ?_⟩
  · have hpast := hordered.past_of_serves hserves
    have hopens := hordered.opens core (List.mem_of_getElem? hj)
    exact ⟨(hordered.attends j core hj).up (.inl (hpast.mono (by decide))),
      hopens.details (.inl (hpast.mono (by decide))), hopens.handlers (.inl hpast)⟩
  · have hopens := hordered.opens core hcore
    have hrank : P.pc.rank ≤ 5 := by rw [hpc]; decide
    have hpresent := hopens.present (.inl (hordered.past_of_sleeping hpc (by decide))) hrank
    obtain ⟨s, hs⟩ := Option.ne_none_iff_exists'.mp hpresent
    exact ⟨s, hs, hopens.listeners (.inl (hordered.past_of_sleeping hpc (by decide))) hrank s hs⟩

def bothShards : List Act := [.begin 0, .begin 1, .finish 1 true, .finish 0 true, .next]

/-- Two shards start, and a connection of one of them makes a call to the other. -/
def upAndCalled : List Act :=
  bothShards ++ bothShards ++ bothShards ++ bothShards ++ bothShards ++
    [.server 0 (.accept 0 true), .server 0 (.proceed 0), .server 0 (.greeted 0 true), .issue 0 0 1,
      .arrive 1 0 (.get [1]) 7]

def smallPool : DbConfig := ⟨4, 2, 1, 1, 1, fun used total => used ≥ total, true, fun _ => rfl⟩

def emptyPool : DbConfig := ⟨0, 0, 0, 0, 0, fun _ _ => false, true, fun _ => rfl⟩

theorem startup_before_service_called : ∃ P,
    runs (Process.act (fun _ => smallPool) true emptyPool) (.init 2) upAndCalled = some P ∧
      Serves upAndCalled P ∧ P.pc = .sleeping ∧
      (∀ core, P.cores[1]? = some core → core.Up smallPool [.arrive (.get [1]) 7]) ∧
      ∀ core ∈ P.cores, ∃ s, core.server = some s ∧ s.loops ≠ [] := by
  have hrun : (runs (Process.act (fun _ => smallPool) true emptyPool) (.init 2) upAndCalled).map
      (fun P => (P.cores.length, P.pc)) = some (2, .sleeping) := by decide +kernel
  obtain ⟨P, hP, hlen⟩ := Option.map_eq_some_iff.mp hrun
  obtain ⟨hlen, hpc⟩ := Prod.mk.inj hlen
  have hserves : Serves upAndCalled P := .inr (.inl ⟨1, by omega, by simp [callsAt, upAndCalled,
    bothShards, Act.at]⟩)
  obtain ⟨hup, hlisten⟩ := startup_before_service hP
  exact ⟨P, hP, hserves, hpc, fun core hj => (hup hserves 1 core hj).1, hlisten hpc⟩

end Runs

end ShunyaKV.Main
