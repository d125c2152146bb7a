import ShunyaKV.Main.Init

/-!
How the process ends.

The servers are stopped when a signal has come or the startup has thrown. All of them stop before
the first is destroyed, and none is destroyed while it has a connection or still accepts. Once
every shard has begun to stop its server, only so much is left to do, and at its end `init`
returns.
-/

namespace ShunyaKV.Main

open ShunyaKV.Lib.Steps ShunyaKV.Lib.Tally ShunyaKV.Shard ShunyaKV.Conn ShunyaKV.Router

structure Core.Quits (core : Core) (pc : InitPc) : Prop where
  balanced : ∀ s, core.server = some s → Balanced s
  closed : pc = .phase .stop → core.part ≠ .waiting →
    ∀ s, core.server = some s → s.taskGate.closed = true
  idle : pc = .phase .stop ∧ core.part = .over ∨ pc = .phase .destroy →
    ∀ s, core.server = some s → s.taskGate.closed = true ∧ s.taskGate.count = 0
  gone : pc = .phase .destroy ∧ core.part = .over ∨ 8 ≤ pc.rank → core.server = none
  rests : pc = .sleeping → core.part = .waiting

section Servers

variable {core core' : Core} {c : DbConfig} {pc : InitPc} {cur : Phase} {flag ok : Bool}
  {s t : SocketServer} {a : ServerAct}

lemma Balanced.details (h : Balanced s) (details : Bool) :
    Balanced { s with sendShardDetails := details } :=
  ⟨h.units, h.current, h.total, h.accepts, h.shut⟩

lemma quits_of_rank (hrank : cur.rank ≤ 5) (h : ∀ s, core.server = some s → Balanced s) :
    core.Quits (.phase cur) := by
  have hne {ph : Phase} (hph : 6 ≤ ph.rank) : InitPc.phase cur ≠ .phase ph := by
    rintro ⟨⟩
    omega
  refine ⟨h, fun hpc => absurd hpc (hne (by decide)), ?_, ?_, by simp⟩
  · rintro (⟨hpc, -⟩ | hpc)
    · exact absurd hpc (hne (by decide))
    · exact absurd hpc (hne (by decide))
  · rintro (⟨hpc, -⟩ | hle)
    · exact absurd hpc (hne (by decide))
    · have hle : 8 ≤ cur.rank := hle
      omega

lemma Core.Quits.begin (h : core.Quits (.phase cur)) :
    (core.beginPart cur).Quits (.phase cur) := by
  cases cur with
  | services =>
    refine quits_of_rank (by decide) fun s hs => h.balanced s ?_
    simp only [Core.beginPart] at hs
    split at hs <;> exact hs
  | stop =>
    have hstop {t : SocketServer} (ht : (core.beginPart .stop).server = some t) :
        Balanced t ∧ t.taskGate.closed = true := by
      obtain ⟨s, hs, rfl⟩ := Option.map_eq_some_iff.mp ht
      exact ⟨(h.balanced s hs).stop, rfl⟩
    refine ⟨fun t ht => (hstop ht).1, fun _ _ t ht => (hstop ht).2, ?_, ?_, by simp⟩
    · rintro (⟨-, hover⟩ | hpc)
      · cases hover
      · cases hpc
    · rintro (⟨hpc, -⟩ | hle)
      · cases hpc
      · exact absurd hle (by decide)
  | destroy =>
    refine ⟨h.balanced, by simp, fun _ => h.idle (.inr rfl), ?_, by simp⟩
    rintro (⟨-, hover⟩ | hle)
    · cases hover
    · exact absurd hle (by decide)
  | counters => exact ⟨h.balanced, by simp, by simp, fun _ => h.gone (.inr (by decide)), by simp⟩
  | _ => exact quits_of_rank (by decide) h.balanced

lemma Core.Quits.finish (h : core.Quits (.phase cur)) (hpart : core.part = .running)
    (hend : core.endPart c flag ok cur = some core') : core'.Quits (.phase cur) := by
  cases cur with
  | details =>
    cases ok <;> cases hend <;> exact quits_of_rank (by decide) h.balanced
  | services =>
    cases ok <;> cases hend <;> exact quits_of_rank (by decide) h.balanced
  | servers =>
    cases ok <;> cases hend
    · exact quits_of_rank (by decide) h.balanced
    · refine quits_of_rank (by decide) ?_
      rintro s ⟨⟩
      exact balanced_init false false
  | handlers =>
    cases ok <;> cases hend
    · exact quits_of_rank (by decide) h.balanced
    · refine quits_of_rank (by decide) fun t ht => ?_
      obtain ⟨s, hs, rfl⟩ := Option.map_eq_some_iff.mp ht
      have hb := h.balanced s hs
      exact ⟨hb.units, hb.current, hb.total, hb.accepts, hb.shut⟩
  | listen =>
    cases ok <;> cases hend
    · exact quits_of_rank (by decide) h.balanced
    · refine quits_of_rank (by decide) fun t ht => ?_
      obtain ⟨s, hs, rfl⟩ := Option.map_eq_some_iff.mp ht
      exact (h.balanced s hs).listen
  | stop =>
    obtain ⟨hcount, ⟨⟩⟩ := Option.ite_none_right_eq_some.mp hend
    have hclosed := h.closed rfl (by rw [hpart]; decide)
    refine ⟨h.balanced, fun _ _ => hclosed, fun _ s hs => ⟨hclosed s hs, ?_⟩, ?_, by simp⟩
    · have hs : core.server = some s := hs
      rw [hs] at hcount
      simpa using hcount
    · rintro (⟨hpc, -⟩ | hle)
      · cases hpc
      · exact absurd hle (by decide)
  | destroy =>
    cases hend
    exact ⟨by simp, by simp, by simp, fun _ => rfl, by simp⟩
  | counters =>
    cases hend
    exact ⟨h.balanced, by simp, by simp, fun _ => h.gone (.inr (by decide)), by simp⟩

lemma Core.Quits.next (h : core.Quits (.phase cur)) (hpart : core.part = .over) (b : Bool) :
    Core.Quits { core with part := .waiting } (cur.next b) := by
  have hgone (pc : InitPc) (hnone : core.server = none) :
      Core.Quits { core with part := .waiting } pc := by
    refine ⟨?_, ?_, ?_, fun _ => hnone, fun _ => rfl⟩ <;> simp [hnone]
  have hstop : Core.Quits { core with part := .waiting } (.phase .stop) :=
    ⟨h.balanced, by simp, by simp, by simp [InitPc.rank, Phase.rank], by simp⟩
  cases cur with
  | stop =>
    refine ⟨h.balanced, by simp [Phase.next], fun _ => h.idle (.inl ⟨rfl, hpart⟩), ?_, fun _ => rfl⟩
    rintro (⟨-, hover⟩ | hle)
    · cases hover
    · simp [Phase.next, InitPc.rank, Phase.rank] at hle
  | destroy => exact hgone _ (h.gone (.inl ⟨rfl, hpart⟩))
  | counters => exact hgone _ (h.gone (.inr (by decide)))
  | listen =>
    cases b
    · exact ⟨h.balanced, by simp [Phase.next], by simp [Phase.next],
        by simp [Phase.next, InitPc.rank], fun _ => rfl⟩
    · exact hstop
  | _ =>
    cases b
    · exact quits_of_rank (by decide) h.balanced
    · exact hstop

lemma act_eq_none_of_empty (hb : Balanced s) (hclosed : s.taskGate.closed = true)
    (hcount : s.taskGate.count = 0) (ha : a.inside = true) : s.act a = none := by
  rcases hact : s.act a with _ | t
  · rfl
  · have hlt := todo_act hb hclosed ha hact
    obtain ⟨hloops, hconns⟩ := hb.empty hcount
    have hzero : s.todo = 0 := by
      rw [SocketServer.todo, Nat.add_eq_zero_iff, tally_eq_zero_iff, tally_eq_zero_iff]
      refine ⟨fun pc hpc => by rw [hloops pc hpc]; rfl, fun conn hconn => ?_⟩
      rw [hconns conn hconn]
      rfl
    omega

lemma inside_of_ofClients (ha : ofClients a = true) : a.inside = true := by
  cases a <;> first | rfl | cases ha

lemma Core.Quits.server (h : core.Quits pc) (hs : core.server = some s) (ha : ofClients a = true)
    (hact : { s with sendShardDetails := core.details }.act a = some t) :
    Core.Quits { core with server := some t } pc := by
  have hb := Balanced.details (h.balanced s hs) core.details
  refine ⟨?_, fun hpc hpart => ?_, fun hidle => ?_, fun hgone => ?_, h.rests⟩
  · rintro t ⟨⟩
    exact hb.act hact
  · rintro t ⟨⟩
    have hclosed := h.closed hpc hpart s hs
    exact (closed_act (s := { s with sendShardDetails := core.details }) hclosed hact).1
  · obtain ⟨hclosed, hcount⟩ := h.idle hidle s hs
    rw [act_eq_none_of_empty hb hclosed hcount (inside_of_ofClients ha)] at hact
    cases hact
  · rw [h.gone hgone] at hs
    cases hs

end Servers

/-! ### Runs -/

/-- The process on the way to its end, which it does not begin by itself. -/
structure Ending (P : Process) : Prop where
  cause : 6 ≤ P.pc.rank → P.aborted = true ∨ P.thrown ≠ none
  quits : ∀ core ∈ P.cores, core.Quits P.pc

section Runs

variable {cfg : ℕ → DbConfig} {flag : Bool} {dflt : DbConfig} {P Q : Process} {a : Act}
  {acts : List Act}

lemma ending_init (smp : ℕ) : Ending (.init smp) := by
  refine ⟨fun hrank => ?_, fun core hcore => ?_⟩
  · simp [Process.init, InitPc.rank, Phase.rank] at hrank
  · obtain ⟨-, rfl⟩ := List.mem_replicate.mp hcore
    exact quits_of_rank (Nat.zero_le 5) (by simp)

lemma cause_next {thrown : Option Phase} (cur : Phase)
    (hrank : 6 ≤ (cur.next thrown.isSome).rank) : thrown ≠ none ∨ 6 ≤ cur.rank := by
  cases thrown with
  | none =>
    right
    cases cur <;> revert hrank <;> decide
  | some q => exact .inl (by simp)

lemma Ending.act (h : Ending P) (ha : P.act cfg flag dflt a = some Q) : Ending Q := by
  obtain ⟨hcause, hquits⟩ := h
  have hset {j : ℕ} {core' : Core} (hcore' : core'.Quits P.pc) :
      ∀ core ∈ (P.setCore j core').cores, core.Quits P.pc := by
    intro core hcore
    rcases List.mem_or_eq_of_mem_set hcore with hcore | rfl
    · exact hquits core hcore
    · exact hcore'
  cases does_of_act ha with
  | begin hpc hj =>
    have hcore := hquits _ (List.mem_of_getElem? hj)
    refine ⟨hcause, hset ?_⟩
    rw [hpc] at hcore ⊢
    exact hcore.begin
  | finish hpc hj hpart hend =>
    have hcore := hquits _ (List.mem_of_getElem? hj)
    refine ⟨fun hrank => (hcause hrank).imp_right fun hthrown => ?_, hset ?_⟩
    · dsimp only
      rw [if_neg fun hnot => hthrown hnot.1]
      exact hthrown
    · rw [hpc] at hcore ⊢
      exact hcore.finish hpart hend
  | next hpc hover =>
    refine ⟨fun hrank => ?_, fun core hcore => ?_⟩
    · rcases cause_next _ hrank with hthrown | hle
      · exact .inr hthrown
      · exact hcause (by rw [hpc]; exact hle)
    · obtain ⟨core, hmem, rfl⟩ := List.mem_map.mp hcore
      have hcore := hquits core hmem
      rw [hpc] at hcore
      exact hcore.next (hover core hmem) _
  | signal => exact ⟨fun _ => .inl rfl, hquits⟩
  | wake hpc haborted =>
    refine ⟨fun _ => .inl haborted, fun core hcore => ?_⟩
    obtain ⟨hbalanced, -, -, -, hrests⟩ := hquits core hcore
    have hpart := hrests hpc
    refine ⟨hbalanced, ?_, ?_, ?_, by simp⟩ <;> simp [hpart, InitPc.rank, Phase.rank]
  | server hj hs hb hact =>
    exact ⟨hcause, hset ((hquits _ (List.mem_of_getElem? hj)).server hs hb hact)⟩
  | issue => exact ⟨hcause, hquits⟩
  | arrive hk hj hstep =>
    obtain ⟨h1, h2, h3, h4, h5⟩ := hquits _ (List.mem_of_getElem? hj)
    exact ⟨hcause, hset ⟨h1, h2, h3, h4, h5⟩⟩
  | resume hj hstep =>
    obtain ⟨h1, h2, h3, h4, h5⟩ := hquits _ (List.mem_of_getElem? hj)
    exact ⟨hcause, hset ⟨h1, h2, h3, h4, h5⟩⟩

lemma ending_runs {smp : ℕ}
    (h : runs (Process.act cfg flag dflt) (.init smp) acts = some P) : Ending P :=
  runs_rule (I := Ending) (fun _ _ _ hI ha => hI.act ha) (ending_init smp) h

/-- **The servers are stopped for a reason, and destroyed when they are empty.** They are stopped
only after a signal or an exception. While they are destroyed no accept loop runs and no
connection is left on any shard, so that nothing refers to a server that is gone; and before the
counters are logged all of them are gone. -/
theorem exit_clean {smp : ℕ} (h : runs (Process.act cfg flag dflt) (.init smp) acts = some P) :
    (P.pc = .phase .stop ∨ P.pc = .phase .destroy ∨ P.pc = .phase .counters ∨ P.pc = .returned →
      P.aborted = true ∨ P.thrown ≠ none) ∧
    (P.pc = .phase .destroy → ∀ core ∈ P.cores, ∀ s, core.server = some s →
      (∀ pc ∈ s.loops, pc = .ended) ∧ ∀ conn ∈ s.conns, conn.pc = .gone) ∧
    (P.pc = .phase .counters ∨ P.pc = .returned → ∀ core ∈ P.cores, core.server = none) := by
  obtain ⟨hcause, hquits⟩ := ending_runs h
  refine ⟨fun hpc => hcause ?_, fun hpc core hcore s hs => ?_, fun hpc core hcore => ?_⟩
  · rcases hpc with hpc | hpc | hpc | hpc <;> rw [hpc] <;> decide
  · have hcore := hquits core hcore
    exact (hcore.balanced s hs).empty (hcore.idle (.inr hpc) s hs).2
  · refine (hquits core hcore).gone (.inr ?_)
    rcases hpc with hpc | hpc <;> rw [hpc] <;> decide

/-! ### The end -/

/-- The parts of `init`, and what servers and clients do. -/
def Act.leaves : Act → Bool
  | .begin _ => true
  | .finish _ _ => true
  | .next => true
  | .server _ _ => true
  | _ => false

def Process.windDown (cfg : ℕ → DbConfig) (flag : Bool) (dflt : DbConfig) (P : Process) (a : Act) :
    Option Process :=
  if a.leaves then P.act cfg flag dflt a else none

/-- Every shard has begun to stop its server. -/
structure Leaving (P : Process) : Prop where
  ending : Ending P
  rank : 6 ≤ P.pc.rank
  begun : P.pc = .phase .stop → ∀ core ∈ P.cores, core.part ≠ .waiting

def Part.todo : Part → ℕ
  | .waiting => 2
  | .running => 1
  | .over => 0

def Core.todo (core : Core) : ℕ := (core.server.elim 0 SocketServer.todo) + core.part.todo

def Process.todo (P : Process) : ℕ :=
  tally Core.todo P.cores + (9 - P.pc.rank) * (2 * P.cores.length + 1)

lemma Process.todo_setCore {j : ℕ} {core core' : Core} (hj : P.cores[j]? = some core)
    (hlt : core'.todo < core.todo) : (P.setCore j core').todo < P.todo := by
  have hset := tally_set (f := Core.todo) hj core'
  simp only [Process.todo, Process.setCore, List.length_set]
  omega

lemma Leaving.closed (h : Leaving P) {core : Core} (hcore : core ∈ P.cores) {s : SocketServer}
    (hs : core.server = some s) : s.taskGate.closed = true := by
  have hquits := h.ending.quits core hcore
  have hrank := h.rank
  rcases hpc : P.pc with ph | _ | _
  · rw [hpc] at hrank
    cases ph with
    | stop => exact hquits.closed hpc (h.begun hpc core hcore) s hs
    | destroy => exact (hquits.idle (.inr hpc) s hs).1
    | counters =>
      rw [hquits.gone (.inr (by rw [hpc]; decide))] at hs
      cases hs
    | _ => exact absurd hrank (by decide)
  · rw [hpc] at hrank
    exact absurd hrank (by decide)
  · rw [hquits.gone (.inr (by rw [hpc]; decide))] at hs
    cases hs

lemma rank_next_le (cur : Phase) (b : Bool) : (cur.next b).rank ≤ 9 := by
  cases cur <;> cases b <;> decide

lemma next_ne_stop {cur : Phase} (hrank : 6 ≤ cur.rank) (b : Bool) : cur.next b ≠ .phase .stop := by
  cases cur with
  | stop | destroy | counters => simp [Phase.next]
  | _ => exact absurd hrank (by decide)

lemma endPart_todo {core core' : Core} {c : DbConfig} {cur : Phase} {ok : Bool}
    (hrank : 6 ≤ cur.rank) (hpart : core.part = .running)
    (hend : core.endPart c flag ok cur = some core') : core'.todo < core.todo := by
  cases cur with
  | stop =>
    obtain ⟨-, ⟨⟩⟩ := Option.ite_none_right_eq_some.mp hend
    simp [Core.todo, hpart, Part.todo]
  | destroy =>
    cases hend
    simp [Core.todo, hpart, Part.todo]
  | counters =>
    cases hend
    simp [Core.todo, hpart, Part.todo]
  | _ => exact absurd hrank (by decide)

lemma todo_next (P : Process) {cur : Phase} (b : Bool) (hpc : P.pc = .phase cur)
    (hover : ∀ core ∈ P.cores, core.part = .over) :
    Process.todo { P with
      pc := cur.next b, cores := P.cores.map fun core => { core with part := .waiting } } <
      P.todo := by
  have htally : tally Core.todo (P.cores.map fun core => { core with part := .waiting }) =
      tally Core.todo P.cores + 2 * P.cores.length := by
    refine tally_map_add fun core hcore => ?_
    simp [Core.todo, hover core hcore, Part.todo]
  have hlt : cur.rank < (cur.next b).rank := rank_lt_next cur b
  have hle := rank_next_le cur b
  have hmul : (9 - (cur.next b).rank + 1) * (2 * P.cores.length + 1) ≤
      (9 - cur.rank) * (2 * P.cores.length + 1) := Nat.mul_le_mul_right _ (by omega)
  rw [Nat.succ_mul] at hmul
  simp only [Process.todo, htally, hpc, List.length_map]
  change _ < _ + (9 - cur.rank) * _
  omega

/-- **Every action** brings the end nearer. -/
lemma Leaving.act (h : Leaving P) (ha : P.windDown cfg flag dflt a = some Q) :
    Leaving Q ∧ Q.todo < P.todo := by
  obtain ⟨hleaves, hact⟩ := Option.ite_none_right_eq_some.mp ha
  have hending := h.ending.act hact
  have hrank := h.rank
  cases does_of_act hact with
  | @begin j ph core hpc hj hpart =>
    rw [hpc] at hrank
    have hstop : ph ≠ .stop := by
      rintro rfl
      exact h.begun hpc core (List.mem_of_getElem? hj) hpart
    refine ⟨⟨hending, h.rank, fun hpc' => ?_⟩, Process.todo_setCore hj ?_⟩
    · exact absurd (InitPc.phase.inj (hpc.symm.trans hpc')) hstop
    · cases ph with
      | stop => exact absurd rfl hstop
      | destroy => simp [Core.beginPart, Core.todo, hpart, Part.todo]
      | counters => simp [Core.beginPart, Core.todo, hpart, Part.todo]
      | _ => exact absurd hrank (by decide)
  | @finish j ok ph core core' hpc hj hpart hend =>
    rw [hpc] at hrank
    refine ⟨⟨hending, h.rank, fun hpc' x hx => ?_⟩, ?_⟩
    · rcases List.mem_or_eq_of_mem_set hx with hx | rfl
      · exact h.begun hpc' x hx
      · rw [endPart_part hend]
        decide
    · exact Process.todo_setCore hj (endPart_todo hrank hpart hend)
  | next hpc hover =>
    rw [hpc] at hrank
    refine ⟨⟨hending, ?_, fun hpc' => absurd hpc' (next_ne_stop hrank _)⟩, todo_next P _ hpc hover⟩
    exact Nat.le_trans hrank (Nat.le_of_lt (rank_lt_next _ _))
  | @server j b core s t hj hs hb hact' =>
    have hmem := List.mem_of_getElem? hj
    refine ⟨⟨hending, h.rank, fun hpc x hx => ?_⟩, Process.todo_setCore hj ?_⟩
    · rcases List.mem_or_eq_of_mem_set hx with hx | rfl
      · exact h.begun hpc x hx
      · exact h.begun hpc core hmem
    · have hbal := Balanced.details ((h.ending.quits core hmem).balanced s hs) core.details
      have hclosed := h.closed hmem hs
      have hlt := todo_act hbal hclosed (inside_of_ofClients hb) hact'
      change t.todo < s.todo at hlt
      simp only [Core.todo, hs, Option.elim_some]
      omega
  | signal | wake | issue | arrive | resume => cases hleaves

/-- **Where nothing more happens, `init` has returned.** -/
lemma Leaving.returned (h : Leaving P) (hstuck : ∀ a, P.windDown cfg flag dflt a = none) :
    P.pc = .returned := by
  have hrank := h.rank
  rcases hpc : P.pc with ph | _ | _
  · exfalso
    rw [hpc] at hrank
    -- no shard waits for its part, as it could begin with it
    have hbegun : ∀ core ∈ P.cores, core.part ≠ .waiting := by
      intro core hcore hpart
      obtain ⟨j, hj⟩ := List.mem_iff_getElem?.mp hcore
      have hnone := hstuck (.begin j)
      simp [Process.windDown, Act.leaves, Process.act, hpc, hj, hpart] at hnone
    -- and none is at its part, as it could end it, or its server do something
    have hover : ∀ core ∈ P.cores, core.part = .over := by
      intro core hcore
      obtain ⟨j, hj⟩ := List.mem_iff_getElem?.mp hcore
      rcases hpart : core.part with _ | _ | _
      · exact absurd hpart (hbegun core hcore)
      · exfalso
        have hend : core.endPart (cfg j) flag true ph = none := by
          simpa [Process.windDown, Act.leaves, Process.act, hpc, hj, hpart] using
            hstuck (.finish j true)
        cases ph with
        | stop =>
          rcases hs : core.server with _ | s
          · simp [Core.endPart, hs] at hend
          · have hb := Balanced.details ((h.ending.quits core hcore).balanced s hs) core.details
            have hclosed := h.closed hcore hs
            have hcount := hb.stuck hclosed fun a ha => ?_
            · simp [Core.endPart, hs] at hend
              exact hend hcount
            · by_cases hb : ofClients a = true
              · simpa [Process.windDown, Act.leaves, Process.act, hj, hs, hb] using
                  hstuck (.server j a)
              · cases a <;> first | exact absurd rfl hb | cases ha
                exact if_pos hclosed
        | destroy => cases hend
        | counters => cases hend
        | _ => exact absurd hrank (by decide)
      · rfl
    have hnone := hstuck .next
    simp only [Process.windDown, Act.leaves, if_true, Process.act, hpc, if_pos hover] at hnone
    cases hnone
  · rw [hpc] at hrank
    exact absurd hrank (by decide)
  · rfl

end Runs

/-- A client is connected to one of two shards when a signal comes; both begin to stop. -/
def upToSignal : List Act := upAndCalled ++ [.signal, .wake, .begin 1, .begin 0]

/-- Then the accept loops end, and the connection. -/
def emptied : List Act :=
  [.server 1 (.proceed 0), .server 1 (.proceed 0), .server 1 (.proceed 0), .server 1 (.proceed 0),
    .finish 1 true, .server 0 (.proceed 0), .server 0 (.proceed 0), .server 0 (.proceed 0),
    .server 0 (.readLoopDone 0), .server 0 (.writeLoopDone 0), .server 0 (.conclude 0),
    .server 0 (.conclude 0), .server 0 (.conclude 0), .server 0 (.conclude 0),
    .server 0 (.conclude 0), .finish 0 true, .next]

abbrev wholeRun : List Act := upToSignal ++ emptied ++ bothShards ++ bothShards

theorem exit_clean_whole : ∃ P Q,
    runs (Process.act (fun _ => smallPool) true emptyPool) (.init 2) (upToSignal ++ emptied) =
      some P ∧
    runs (Process.act (fun _ => smallPool) true emptyPool) (.init 2) wholeRun = some Q ∧
      (∀ core ∈ P.cores, ∀ s, core.server = some s → ∀ conn ∈ s.conns, conn.pc = .gone) ∧
      Q.pc = .returned ∧ ∀ core ∈ Q.cores, core.server = none := by
  have hrun : (runs (Process.act (fun _ => smallPool) true emptyPool) (.init 2)
      (upToSignal ++ emptied)).map (·.pc) = some (.phase .destroy) := by decide +kernel
  obtain ⟨P, hP, hpc⟩ := Option.map_eq_some_iff.mp hrun
  have hrun' : (runs (Process.act (fun _ => smallPool) true emptyPool) (.init 2)
      wholeRun).map (·.pc) = some .returned := by decide +kernel
  obtain ⟨Q, hQ, hpc'⟩ := Option.map_eq_some_iff.mp hrun'
  exact ⟨P, Q, hP, hQ, fun core hcore s hs => ((exit_clean hP).2.1 hpc core hcore s hs).2, hpc',
    (exit_clean hQ).2.2 (.inr hpc')⟩

end ShunyaKV.Main
