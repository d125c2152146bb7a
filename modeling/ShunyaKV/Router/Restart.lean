import ShunyaKV.Lib.Steps
import ShunyaKV.Shard.Threaded

/-!
Stopping a service and starting it again.

`stop` empties the map and nothing else: the entries of the map are destroyed while the lists
still link them, and the counters still count them. The next call starts the store again, but
the pool and the policy are set up only once and stay as they were left. So a restart is one
without a trace exactly if there was nothing left to undo.
-/

namespace ShunyaKV.Shard.Store

/-- `store::stop`. The hooks of the entries destroyed are not unlinked; a build with
assertions aborts there if one of them is. -/
def stop (s : Store) : Store := { s with map := ∅ }

def counts (s : Store) : ℕ × ℕ × ℕ := (s.probCount, s.sancCount, s.availableSlots)

end ShunyaKV.Shard.Store

namespace ShunyaKV.Router

open ShunyaKV.Lib.Steps ShunyaKV.Shard

/-- What `start` makes of a `db_config` on this shard. -/
structure DbConfig where
  maxSize : ℕ
  probPoolMaxSize : ℕ
  probThreshold : ℕ
  reaperBudget : ℕ
  softBudget : ℕ
  /-- The outcome of `used / total >= soft_.trigger`. -/
  softTriggered : ℕ → ℕ → Bool
  valueFits : Bool := true
  fits : maxSize ≠ 0 → valueFits = true := by simp

def DbConfig.config (c : DbConfig) : Config where
  maxSize := c.maxSize
  probPoolMaxSize := c.probPoolMaxSize
  probThreshold := c.probThreshold
  reaperBudget := c.reaperBudget
  softBudget := c.softBudget
  softTriggered := fun used => c.softTriggered used c.maxSize
  valueFits := c.valueFits
  fits := c.fits

structure Service where
  started : Bool
  /-- The pool and the policy are set up. -/
  initialized : Bool
  /-- The configuration in force. -/
  cfg : Config
  reactor : Reactor

namespace Service

/-- A service before its first start: the pool is empty, and has room for nothing. -/
def new : Service :=
  let cfg : Config := ⟨0, 0, 0, 0, 0, fun _ => false, true, fun _ => rfl⟩
  ⟨false, false, cfg, .fresh cfg⟩

/-- `store::start`. Only the trigger is taken from a second configuration. -/
def startStore (c : DbConfig) (svc : Service) : Service :=
  if svc.initialized then
    { svc with cfg :=
        { svc.cfg with softTriggered := fun used => c.softTriggered used svc.cfg.maxSize } }
  else
    { svc with
      initialized := true
      cfg := c.config
      reactor := { svc.reactor with store := Shard.start c.config } }

def start (c : DbConfig) (svc : Service) : Service :=
  if svc.started then svc else startStore c { svc with started := true }

/-- With the default configuration, `c`. -/
def ensureStarted (c : DbConfig) (svc : Service) : Service :=
  if svc.started then svc else svc.start c

def stop (svc : Service) : Service :=
  if svc.started then
    { svc with started := false, reactor := { svc.reactor with store := svc.reactor.store.stop } }
  else svc

inductive Step
  /-- A call makes sure that the store is started. -/
  | ensure
  /-- A call begins, which makes sure of it too, or goes on. -/
  | call (a : Action)

def perform (svc : Service) (a : Action) : Option Service :=
  (svc.reactor.act svc.cfg a).map fun σ => { svc with reactor := σ }

def step (c : DbConfig) (svc : Service) : Step → Option Service
  | .ensure => some (svc.ensureStarted c)
  | .call (.arrive call now) => (svc.ensureStarted c).perform (.arrive call now)
  | .call (.resume i now later) => svc.perform (.resume i now later)

def Idle (svc : Service) : Prop := ∀ t ∈ svc.reactor.tasks, ∃ r, t.pc = .done r

/-- The lists have only entries owned by the map or by a write in progress. -/
def OnlyOwned (svc : Service) : Prop :=
  ∀ a, a ∈ svc.reactor.store.sieveList ∨ a ∈ svc.reactor.store.probationList →
    Held svc.reactor.store svc.reactor.held a

def CountsFresh (svc : Service) : Prop :=
  svc.reactor.store.counts = (Shard.start svc.cfg).counts

/-- Nothing is linked, nothing is counted and the pool is full. -/
structure Spotless (svc : Service) : Prop where
  sieve : svc.reactor.store.sieveList = []
  prob : svc.reactor.store.probationList = []
  counts : svc.CountsFresh

/-! ### Starting and stopping -/

section Start

variable {c : DbConfig} {svc svc' : Service} {a : Action} {x : Step}

/-- A service at work: started once, its lists sound. -/
structure Working (svc : Service) : Prop where
  initialized : svc.initialized = true
  keeps : svc.reactor.Keeps svc.cfg (Tidy svc.cfg)

/-- A restart changes the trigger, which the lists do not depend on. -/
lemma ensureStarted_eq (h : svc.initialized = true) (c : DbConfig) :
    ∃ f, svc.ensureStarted c =
      { svc with started := true, cfg := { svc.cfg with softTriggered := f } } := by
  unfold ensureStarted start startStore
  cases hs : svc.started with
  | true =>
    refine ⟨svc.cfg.softTriggered, ?_⟩
    rw [if_pos rfl, ← hs]
  | false =>
    refine ⟨fun used => c.softTriggered used svc.cfg.maxSize, ?_⟩
    simp [h]

lemma started_ensureStarted (c : DbConfig) (svc : Service) :
    (svc.ensureStarted c).started = true := by
  unfold ensureStarted start startStore
  cases hs : svc.started with
  | true => exact hs
  | false =>
    simp only [Bool.false_eq_true, if_false]
    split <;> rfl

lemma Working.ensureStarted (h : svc.Working) (c : DbConfig) : (svc.ensureStarted c).Working := by
  obtain ⟨f, hf⟩ := ensureStarted_eq h.initialized c
  obtain ⟨hholds, ht⟩ := h.keeps.inv
  rw [hf]
  refine ⟨h.initialized, ⟨hholds, ?_⟩, h.keeps.enabled⟩
  exact ⟨ht.sieveNodup, ht.sieve, ht.prob, ht.stands, ht.disabled⟩

lemma Working.perform (h : svc.Working) (hp : svc.perform a = some svc') :
    svc'.Working ∧ svc'.started = svc.started := by
  obtain ⟨σ, hσ, rfl⟩ := Option.map_eq_some_iff.mp hp
  exact ⟨⟨h.initialized, h.keeps.act (tidy_kept svc.cfg) hσ⟩, rfl⟩

/-- **One step**: the service keeps working, and a step that begins with it started, or
starts it, ends with it started. -/
lemma Working.step (h : svc.Working) (hx : svc.step c x = some svc') :
    svc'.Working ∧ (svc.started = true → svc'.started = true) := by
  cases x with
  | ensure =>
    cases hx
    exact ⟨h.ensureStarted c, fun _ => started_ensureStarted c svc⟩
  | call a =>
    cases a with
    | arrive call now =>
      obtain ⟨h1, h2⟩ := (h.ensureStarted c).perform hx
      exact ⟨h1, fun _ => h2.trans (started_ensureStarted c svc)⟩
    | resume i now later =>
      obtain ⟨h1, h2⟩ := h.perform hx
      exact ⟨h1, h2.trans⟩

lemma working_new_start (c : DbConfig) :
    (new.start c).Working ∧ (new.start c).started = true :=
  ⟨⟨rfl, tidy_fresh c.config⟩, rfl⟩

lemma working_runs {acts : List Step} {dflt : DbConfig}
    (h : runs (step dflt) (new.start c) acts = some svc) : svc.Working ∧ svc.started = true := by
  refine runs_rule (I := fun svc => Working svc ∧ svc.started = true) ?_ (working_new_start c) h
  rintro s x t ⟨hw, hs⟩ hx
  obtain ⟨h1, h2⟩ := hw.step hx
  exact ⟨h1, h2 hs⟩

lemma Idle.held (h : svc.Idle) : svc.reactor.held = [] := by
  refine List.flatMap_eq_nil_iff.mpr fun t ht => ?_
  obtain ⟨r, hr⟩ := h t ht
  rw [hr]
  rfl

lemma Idle.perform_resume (h : svc.Idle) (i now later : ℕ) :
    svc.perform (.resume i now later) = none := by
  rw [Service.perform, Option.map_eq_none_iff]
  simp only [Reactor.act]
  rcases hi : svc.reactor.tasks[i]? with _ | t
  · rfl
  · obtain ⟨r, hr⟩ := h t (List.mem_of_getElem? hi)
    rw [Option.bind_some, hr]
    rfl

/-! ### After the stop -/

lemma stop_eq (h : svc.started = true) : svc.stop =
    { svc with started := false, reactor := ⟨svc.reactor.store.stop, svc.reactor.tasks⟩ } := by
  rw [stop, if_pos h]

/-- The map owns nothing after the stop, so that the lists must be empty. -/
lemma onlyOwned_stop_iff (hs : svc.started = true) (hi : svc.Idle) :
    svc.stop.OnlyOwned ↔
      svc.reactor.store.sieveList = [] ∧ svc.reactor.store.probationList = [] := by
  have hnone (a : Addr) : ¬ Held svc.reactor.store.stop svc.reactor.held a := by
    rw [hi.held]
    rintro (⟨k, hk⟩ | hk)
    · simp [Store.stop] at hk
    · cases hk
  rw [stop_eq hs]
  constructor
  · intro h
    exact ⟨List.eq_nil_iff_forall_not_mem.mpr fun a ha => hnone a (h a (.inl ha)),
      List.eq_nil_iff_forall_not_mem.mpr fun a ha => hnone a (h a (.inr ha))⟩
  · rintro ⟨h1, h2⟩ a (ha | ha)
    · exact absurd (h1 ▸ ha : a ∈ []) List.not_mem_nil
    · exact absurd (h2 ▸ ha : a ∈ []) List.not_mem_nil

lemma countsFresh_ensureStarted_iff (hw : svc.Working) (hs : svc.started = true) (c : DbConfig) :
    (svc.stop.ensureStarted c).CountsFresh ↔ svc.CountsFresh := by
  have hinit : svc.stop.initialized = true := by
    rw [stop_eq hs]
    exact hw.initialized
  obtain ⟨f, hf⟩ := ensureStarted_eq hinit c
  rw [hf, stop_eq hs]
  exact Iff.rfl

/-- With the lists empty the store is sound without its map. -/
lemma Spotless.working (h : svc.Spotless) (hw : svc.Working) (hs : svc.started = true)
    (hi : svc.Idle) : svc.stop.Working := by
  obtain ⟨⟨hholds, ht⟩, henabled⟩ := hw.keeps
  rw [hi.held] at hholds
  rw [stop_eq hs]
  refine ⟨hw.initialized, ⟨?_, ?_⟩, henabled⟩
  · have hheld : Reactor.held ⟨svc.reactor.store.stop, svc.reactor.tasks⟩ = [] := hi.held
    show Holds svc.reactor.store.stop (Reactor.held ⟨_, svc.reactor.tasks⟩)
    rw [hheld]
    refine ⟨⟨?_, ?_, hholds.poolNodup, hholds.poolNew, by simp, List.nodup_nil⟩, by simp⟩
    · simp [Store.stop]
    · simp [Store.stop]
  · have hsieve : svc.reactor.store.stop.sieveList = [] := h.sieve
    have hprob : svc.reactor.store.stop.probationList = [] := h.prob
    refine ⟨ht.sieveNodup, ?_, ?_, ht.stands, ht.disabled⟩
    · simp [hsieve]
    · simp [hprob]

lemma Working.onlyOwned (h : svc.Working) : svc.OnlyOwned := by
  rintro a (ha | ha)
  · exact (h.keeps.inv.threaded.sieve a ha).2
  · exact (h.keeps.inv.threaded.prob a ha).2

/-- Until it is started again the service is as the stop has left it. -/
lemma Spotless.runs (h : svc.Spotless) (hw : svc.Working) (hs : svc.started = true)
    (hi : svc.Idle) {acts : List Step} (hr : runs (Service.step c) svc.stop acts = some svc') :
    svc'.Working ∧ (svc'.started = false → svc' = svc.stop) := by
  have hidle : svc.stop.Idle := by
    rw [stop_eq hs]
    exact hi
  refine runs_rule (I := fun t => Working t ∧ (t.started = false → t = svc.stop)) ?_
    ⟨h.working hw hs hi, fun _ => rfl⟩ hr
  rintro s x t ⟨hsw, hstop⟩ hx
  obtain ⟨htw, hst⟩ := hsw.step hx
  refine ⟨htw, fun hf => ?_⟩
  have hsf : s.started = false := by
    cases hsb : s.started with
    | false => rfl
    | true => rw [hst hsb] at hf; cases hf
  -- a stopped service is left by a start only
  obtain rfl := hstop hsf
  have hstarted := started_ensureStarted c svc.stop
  cases x with
  | ensure =>
    cases hx
    rw [hstarted] at hf
    cases hf
  | call a =>
    cases a with
    | arrive call now =>
      have hsame := ((hsw.ensureStarted c).perform hx).2
      rw [hsame, hstarted] at hf
      cases hf
    | resume i now later =>
      have hnone : svc.stop.perform (.resume i now later) = some t := hx
      rw [hidle.perform_resume] at hnone
      cases hnone

end Start

end Service

open Service

/-- **A restart is without a trace exactly if nothing was left at the stop**: whatever the
calls after it do, the lists have only entries in use at every moment, and the counters after
the restart are those of a new store, if and only if the lists were empty, the counters zero
and the pool full when the service was stopped. -/
theorem restart_traceless_iff (c dflt : DbConfig) {acts : List Step} {svc : Service}
    (hrun : runs (step dflt) (new.start c) acts = some svc) (hidle : svc.Idle) :
    (∀ acts' svc', runs (step dflt) svc.stop acts' = some svc' →
      svc'.OnlyOwned ∧ (svc'.started = false → (svc'.ensureStarted dflt).CountsFresh)) ↔
    svc.Spotless := by
  obtain ⟨hw, hs⟩ := working_runs hrun
  constructor
  · intro h
    obtain ⟨howned, hcounts⟩ := h [] svc.stop rfl
    obtain ⟨h1, h2⟩ := (onlyOwned_stop_iff hs hidle).mp howned
    refine ⟨h1, h2, (countsFresh_ensureStarted_iff hw hs dflt).mp (hcounts ?_)⟩
    rw [stop_eq hs]
  · intro h acts' svc' hr
    obtain ⟨hw', hstop⟩ := h.runs hw hs hidle hr
    refine ⟨hw'.onlyOwned, fun hf => ?_⟩
    rw [hstop hf]
    exact (countsFresh_ensureStarted_iff hw hs dflt).mpr h.counts

/-- Room for four entries, and no eviction; by default an eviction pass after every write. -/
def four : DbConfig :=
  { maxSize := 4, probPoolMaxSize := 4, probThreshold := 4, reaperBudget := 1, softBudget := 1,
    softTriggered := fun _ _ => false }

def byDefault : DbConfig := { four with softTriggered := fun _ _ => true }

/-- A write that has expired and been read before the stop. -/
theorem restart_traceless_expired :
    ∃ svc, runs (step byDefault) (new.start four)
        [.call (.arrive (.setWithTtl [1] [1] 1) 0), .call (.resume 0 0 0),
          .call (.arrive (.get [1]) 1)] = some svc ∧ svc.Idle ∧
      ∀ acts' svc', runs (step byDefault) svc.stop acts' = some svc' →
        svc'.OnlyOwned ∧
          (svc'.started = false → (svc'.ensureStarted byDefault).CountsFresh) := by
  have hrun : runs (step byDefault) (new.start four)
      [.call (.arrive (.setWithTtl [1] [1] 1) 0), .call (.resume 0 0 0),
        .call (.arrive (.get [1]) 1)] = some ⟨true, true, four.config, ⟨_,
          [⟨.setWithTtl [1] [1] 1, .done (.stored true), some 0⟩,
            ⟨.get [1], .done (.found none), some 1⟩]⟩⟩ := rfl
  refine ⟨_, hrun, ?_, (restart_traceless_iff four byDefault hrun ?_).mpr ⟨rfl, rfl, rfl⟩⟩
  · simp [Idle]
  · simp [Idle]

/-- One write before the stop is linked and counted ever after. -/
theorem restart_keeps_trace :
    ∃ svc, runs (step byDefault) (new.start four)
        [.call (.arrive (.set [1] [1]) 0), .call (.resume 0 0 0)] = some svc ∧ svc.Idle ∧
      ¬ svc.stop.OnlyOwned ∧ ¬ (svc.stop.ensureStarted byDefault).CountsFresh := by
  have hrun : runs (step byDefault) (new.start four)
      [.call (.arrive (.set [1] [1]) 0), .call (.resume 0 0 0)] =
        some ⟨true, true, four.config, ⟨_, [⟨.set [1] [1], .done (.stored true), some 0⟩]⟩⟩ := rfl
  have hidle (s : Store) :
      Idle ⟨true, true, four.config, ⟨s, [⟨.set [1] [1], .done (.stored true), some 0⟩]⟩⟩ := by
    simp [Idle]
  refine ⟨_, hrun, hidle _, ?_, ?_⟩
  · rw [onlyOwned_stop_iff rfl (hidle _)]
    exact fun h => absurd h.2 (by decide)
  · unfold CountsFresh
    decide

end ShunyaKV.Router
