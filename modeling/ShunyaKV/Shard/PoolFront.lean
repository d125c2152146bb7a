import ShunyaKV.Shard.Solo
import ShunyaKV.Shard.Threaded

/-!
Calls on their way to the front of the pool.

A write that finds the pool not empty and probation full runs the reaper first and takes its
entry afterwards, without looking again whether there is one. Other writes may have taken
the last one by then. If each write that finds the pool not empty finds an entry in it for
itself and for all those on their way, there is always one.
-/

namespace ShunyaKV.Shard

open ShunyaKV.Lib.Steps

/-- In the reaper, with the front of the pool to take after it. -/
def Pc.popping : Pc → Bool
  | .reaping _ _ none | .calling _ _ none | .reaped none => true
  | _ => false

lemma Pc.Acquiring.popping {fresh : Option Addr} {pc : Pc} (h : pc.Acquiring fresh) :
    pc.popping = fresh.isNone := by
  cases h <;> cases fresh <;> rfl

lemma Pc.Evicting.popping {pc : Pc} (h : pc.Evicting) : pc.popping = false := by
  cases h <;> rfl

lemma Pc.acquiring_of_popping {pc : Pc} (h : pc.popping) : pc.Acquiring none := by
  cases pc with
  | reaping count victims fresh =>
    cases fresh with
    | none => exact .reaping _ _
    | some => cases h
  | calling left count fresh =>
    cases fresh with
    | none => exact .calling _ _
    | some => cases h
  | reaped fresh =>
    cases fresh with
    | none => exact .reaped
    | some => cases h
  | acquired | sieving | chosen | removing | done => cases h

/-! ### The pool only shrinks when an entry is taken -/

section Pool

variable {cfg : Config} {s s' : Store}

lemma pool_le_release (cfg : Config) (s : Store) (a : Addr) :
    s.pool.length ≤ (s.release cfg a).pool.length := (release_pool cfg s a).length_le

lemma pool_le_turn (h : Turn cfg s s') : s.pool.length ≤ s'.pool.length := by
  cases h with
  | note => rw [(noteFallback_fields s).1]
  | evict key => exact (evictKeys_pool cfg s [key]).length_le
  | look now _ =>
    unfold Store.evictTurn
    split <;> exact le_rfl
  | rewind | reap | tally | point => exact le_rfl

lemma pool_le_turns (h : Turns cfg s s') : s.pool.length ≤ s'.pool.length := by
  induction h with
  | refl => exact le_rfl
  | tail _ hturn ih => exact ih.trans (pool_le_turn hturn)

lemma pool_le_update (cfg : Config) (s : Store) (k v : Bytes) (d : Option ℕ) (a : Addr) :
    s.pool.length ≤ (update cfg s k v d a).pool.length := by
  unfold update Store.emplace
  dsimp only
  split
  · exact le_rfl
  · refine le_trans ?_ (pool_le_release cfg _ a)
    rw [promote_pool]
    exact le_rfl

lemma pool_le_get (cfg : Config) (s : Store) (k : Bytes) (now : ℕ) :
    s.pool.length ≤ (s.get cfg k now).1.pool.length := by
  unfold Store.get
  rcases s.map.lookup k with _ | a
  · exact le_rfl
  · dsimp only
    split
    · refine le_trans ?_ (pool_le_release cfg _ a)
      exact (congrArg List.length (touch_onErase s a).pool).ge
    · exact (congrArg List.length (promote_pool s a)).ge

end Pool

namespace Reactor

/-- How many calls are on their way to the front of the pool. -/
def comers (σ : Reactor) : ℕ := σ.tasks.countP fun t => t.pc.popping

/-- A write that finds the pool not empty finds an entry for itself after all others. -/
def Affords (cfg : Config) (σ : Reactor) : Action → Prop
  | .arrive (.get _) _ => True
  | .arrive _ _ =>
    cfg.probPoolMaxSize ≠ 0 → σ.store.pool ≠ [] → σ.comers < σ.store.pool.length
  | .resume _ _ _ => True

instance (cfg : Config) (σ : Reactor) (a : Action) : Decidable (σ.Affords cfg a) := by
  unfold Affords
  split <;> infer_instance

lemma comers_append (s s' : Store) (tasks : List Task) (t : Task) :
    comers ⟨s', tasks ++ [t]⟩ = comers ⟨s, tasks⟩ + if t.pc.popping then 1 else 0 := by
  simp [comers, List.countP_append, List.countP_cons]

lemma comers_replace (s s' : Store) (l r : List Task) (t t' : Task) :
    comers ⟨s', l ++ t' :: r⟩ + (if t.pc.popping then 1 else 0) =
      comers ⟨s, l ++ t :: r⟩ + if t'.pc.popping then 1 else 0 := by
  simp only [comers, List.countP_append, List.countP_cons]
  omega

lemma comers_disabled {cfg : Config} {σ : Reactor} (hc : cfg.probPoolMaxSize = 0)
    (h : ∀ t ∈ σ.tasks, t.pc.Enabled cfg) : σ.comers = 0 :=
  List.countP_eq_zero.mpr fun t ht hp => h t ht none (Pc.acquiring_of_popping hp) hc

/-- A write that starts leaves an entry for each call on its way, itself among them. -/
lemma comers_opening {cfg : Config} {σ : Reactor} {s' : Store} {pc : Pc}
    (he : ∀ t ∈ σ.tasks, t.pc.Enabled cfg) (hle : σ.comers ≤ σ.store.pool.length)
    (hroom : cfg.probPoolMaxSize ≠ 0 → σ.store.pool ≠ [] → σ.comers < σ.store.pool.length)
    (ho : Opening cfg σ.store s' pc) :
    σ.comers + (if pc.popping then 1 else 0) ≤ s'.pool.length := by
  have hpool := (noteFallback_fields σ.store).1
  cases ho with
  | plain hc h =>
    rw [comers_disabled hc he]
    exact Nat.zero_le _
  | made _ hnil hr h =>
    have hnobody : σ.comers = 0 := by simpa [hnil] using hle
    rw [(turns_startReaper (not_throws_made hr) h).2.popping, hnobody]
    exact Nat.zero_le _
  | crowded hc hp _ hr h =>
    obtain ⟨ht, hpc⟩ := turns_startReaper (not_throws_noted hr) h
    have hgrow : _ ≤ s'.pool.length := pool_le_turns ht
    rw [hpool] at hgrow
    rw [hpc.popping]
    exact (hroom hc hp).trans_le hgrow
  | front hc hp _ h =>
    have hroom' := hroom hc hp
    have htake := congrArg List.length (takeFront_pool h)
    rw [hpool, List.length_tail] at htake
    show σ.comers ≤ s'.pool.length
    omega
  | threw h =>
    rw [h.pool, hpool]
    exact hle

/-- A call that goes on takes an entry only if it was on its way. -/
lemma comers_moved {cfg : Config} {now later : ℕ} {s s' : Store} {l r : List Task} {t : Task}
    {pc' : Pc} (hle : comers ⟨s, l ++ t :: r⟩ ≤ s.pool.length)
    (h : Moved cfg now later s t.call t.pc s' pc') :
    comers ⟨s', l ++ t.next now pc' :: r⟩ ≤ s'.pool.length := by
  have hcount := comers_replace s s' l r t (t.next now pc')
  rw [Task.next_pc] at hcount
  obtain ⟨call, pc, effect⟩ := t
  dsimp only at hcount h
  cases h with
  | acquiring hpc ht hpc' =>
    have hgrow : s.pool.length ≤ s'.pool.length := pool_le_turns ht
    rw [hpc.popping, hpc'.popping] at hcount
    omega
  | made a => exact hcount.le.trans hle
  | front h =>
    have htake : s'.pool.length = s.pool.length - 1 := by
      rw [takeFront_pool h, List.length_tail]
    simp only [Pc.popping, if_true, Bool.false_eq_true, if_false] at hcount
    omega
  | write _ ht hpc' =>
    have hgrow := (pool_le_update cfg s _ _ _ _).trans (pool_le_turns ht)
    rw [hpc'.popping] at hcount
    exact (hcount.le.trans hle).trans hgrow
  | evicting hpc ht hpc' =>
    have hgrow : s.pool.length ≤ s'.pool.length := pool_le_turns ht
    rw [hpc.popping, hpc'.popping] at hcount
    omega

/-- There is an entry for each call on its way. -/
lemma comers_act {cfg : Config} {σ σ' : Reactor} {a : Action} (hk : σ.Keeps cfg (Tidy cfg))
    (hle : σ.comers ≤ σ.store.pool.length) (hafford : σ.Affords cfg a)
    (ha : σ.act cfg a = some σ') : σ'.comers ≤ σ'.store.pool.length := by
  cases a with
  | arrive call now =>
    obtain ⟨⟨s', pc⟩, hbegin, rfl⟩ := Option.map_eq_some_iff.mp ha
    rw [comers_append σ.store]
    cases call with
    | set k v => exact comers_opening hk.enabled hle hafford (startWrite_opening hbegin)
    | setWithTtl k v ttl => exact comers_opening hk.enabled hle hafford (startWrite_opening hbegin)
    | get k =>
      cases hbegin
      exact hle.trans (pool_le_get cfg σ.store k now)
  | resume i now later =>
    obtain ⟨s, tasks⟩ := σ
    obtain ⟨l, t, r, q, rfl, -, hq, rfl⟩ := resume_of_act ha
    exact comers_moved hle (resume_moved hq)

/-- **The pool has an entry for each call that comes to take one**, if each write that has
found it not empty has found one for itself and for all those on their way. -/
theorem front_of_affords (cfg : Config) (acts : List Action) {σ : Reactor}
    (hrun : runs (act cfg) (fresh cfg) acts = some σ)
    (hafford : Along (act cfg) (fun σ a => σ.Affords cfg a) (fresh cfg) acts) :
    ∀ t ∈ σ.tasks, t.pc = .reaped none → ∀ now later, ∃ a ∈ σ.store.pool, ∃ s',
      Shard.resume cfg now later σ.store t.call t.pc = some (s', .acquired a) := by
  have hI : σ.Keeps cfg (Tidy cfg) ∧ σ.comers ≤ σ.store.pool.length := by
    refine hafford.runs_rule
      (I := fun σ => σ.Keeps cfg (Tidy cfg) ∧ σ.comers ≤ σ.store.pool.length)
      (fun σ a σ' hI hP ha => ?_) ⟨tidy_fresh cfg, Nat.zero_le _⟩ hrun
    exact ⟨hI.1.act (tidy_kept cfg) ha, comers_act hI.1 hI.2 hP ha⟩
  intro t ht hpc now later
  have hcomer : 0 < σ.comers := List.countP_pos_iff.mpr ⟨t, ht, by rw [hpc]; rfl⟩
  obtain ⟨a, pool, hpool⟩ := List.exists_cons_of_length_pos (hcomer.trans_le hI.2)
  obtain ⟨s', hs'⟩ : ∃ s', σ.store.takeFront = (s', some a) := ⟨_, takeFront_cons hpool⟩
  refine ⟨a, by simp [hpool], s', ?_⟩
  rw [hpc, Shard.resume, hs']
  rfl

def onceEach : Config :=
  { maxSize := 2, probPoolMaxSize := 2, probThreshold := 1, reaperBudget := 1
    softBudget := 1, softTriggered := fun _ => false }

def inReach : List Action :=
  [.arrive (.set [1] [1]) 0, .resume 0 0 0, .arrive (.set [2] [2]) 0]

theorem front_of_affords_onceEach :
    ∃ σ, runs (act onceEach) (fresh onceEach) inReach = some σ ∧
      (∃ t ∈ σ.tasks, t.pc = .reaped none) ∧
      ∀ t ∈ σ.tasks, t.pc = .reaped none → ∀ now later, ∃ a ∈ σ.store.pool, ∃ s',
        Shard.resume onceEach now later σ.store t.call t.pc = some (s', .acquired a) :=
  ⟨_, rfl, by decide, front_of_affords onceEach inReach rfl (by decide)⟩

end Reactor

/-! ### A pool that is drained -/

section Drained

variable {cfg : Config} {n : ℕ} {s : Store}

/-- When the batch of a suspended reaper has been removed the shard is as it was at first. -/
lemma Filled.discharge (h : Filled cfg n s) (ht : Threaded cfg s []) (hc : cfg.probPoolMaxSize ≠ 0)
    (m : ℕ) : Filled cfg 0 (Store.evictKeys cfg { s.emptied with probEvictionCount := m }
      ((List.range n).map freshKey)) := by
  set t : Store := { s.emptied with probEvictionCount := m } with htdef
  have htouch : Touch s t := ⟨rfl, rfl, rfl, rfl, fun _ _ => rfl, fun _ => ⟨rfl, rfl, rfl⟩⟩
  have hh := (htouch.moves h.holds).1
  have hroom : Room cfg t := by
    show s.pool.length ≤ cfg.maxSize
    have := h.pool
    omega
  have hd := discharged_evictKeys hc s.probationList hh.toOwned hroom ht.stands.nodup
    fun v hv => ⟨(ht.prob v hv).2.resolve_right (by simp), (ht.prob v hv).1, by
      simp [htdef, Store.emptied]⟩
  rw [show (s.probationList.map fun a => (t.heap a).key) = _ from h.keys] at hd
  have hnil : (t.evictKeys cfg ((List.range n).map freshKey)).probationList = [] := hd.probation
  refine ⟨(moves_evictKeys cfg hh _).1, ?_, hd.counts.1, by simp [hnil], by simp [hnil], ?_⟩
  · have hpool := h.pool
    have hpool' : _ = min cfg.maxSize (s.pool.length + s.probationList.length) := hd.pool
    rw [h.length] at hpool'
    omega
  · intro k hk
    rw [evictKeys_lookup] at hk
    split at hk
    · exact absurd rfl hk
    · next hn =>
      obtain ⟨i, hi, rfl⟩ := h.map k hk
      exact absurd (List.mem_map.mpr ⟨i, List.mem_range.mpr hi, rfl⟩) hn

def inCallback : Task := ⟨.set [1] [1], .calling [] 1000 none, none⟩

lemma runs_inCallback (hn : n = 1000) (hc : cfg.probPoolMaxSize ≠ 0)
    (hsoft : ∀ m, cfg.softTriggered m = false) (hmax : n < cfg.maxSize)
    (hth : cfg.probThreshold = n) (hb : cfg.reaperBudget = n) :
    ∃ u, Filled cfg 0 u ∧ runs (Reactor.act cfg) (Reactor.fresh cfg)
      (insertions n ++ [.arrive (.set [1] [1]) 0, .resume n 0 0]) =
        some ⟨u, inserts n ++ [inCallback]⟩ := by
  obtain ⟨s, hruns, hfill⟩ := runs_insertions hc hsoft (n := n) (by omega) hth.ge
  have hthread : Threaded cfg s [] := by
    have hheld : Reactor.held ⟨s, inserts n⟩ = [] := by simp [Reactor.held, inserts, Pc.held]
    have hinv := ((tidy_fresh cfg).runs (tidy_kept cfg) hruns).inv
    rw [hheld] at hinv
    exact hinv.threaded
  have harrive : begin cfg 0 s (.set [1] [1]) = _ := hfill.suspend hc hn hmax hth hb.ge
    (by unfold vectorMaxSize; omega)
  have hresume : resume cfg 0 0 s.emptied (.set [1] [1])
      (.reaping 1000 ((List.range n).map freshKey) none) = _ :=
    resume_reaping 0 0 (by simp [hn]) (hb.trans hn)
  refine ⟨_, hfill.discharge hthread hc (s.emptied.probEvictionCount + 1000), ?_⟩
  rw [runs_append, hruns, Option.bind_some, Reactor.runs_arrive harrive,
    Reactor.runs_resume (inserts_length n) hresume]
  rfl

/-- Two writes are suspended, one in the callback and one in the reaper, when a third takes the
last entry. -/
def drained (n : ℕ) : List Action :=
  insertions n ++ [.arrive (.set [1] [1]) 0, .resume n 0 0] ++ (insertionsAt (n + 1) n ++
    [.arrive (.set [3] [3]) 0, .arrive (.set [2] [2]) 0, .resume n 0 0])

lemma runs_drained (hn : n = 1000) (hc : cfg.probPoolMaxSize ≠ 0)
    (hsoft : ∀ m, cfg.softTriggered m = false) (hmax : cfg.maxSize = n + 1)
    (hth : cfg.probThreshold = n) (hb : cfg.reaperBudget = n) :
    ∃ σ, runs (Reactor.act cfg) (Reactor.fresh cfg) (drained n) = some σ ∧ σ.store.pool = [] ∧
      (∃ t, σ.tasks[n]? = some t ∧ t.pc = .reaped none) ∧ σ.act cfg (.resume n 0 0) = none := by
  obtain ⟨u, hagain, hruns⟩ := runs_inCallback hn hc hsoft (by omega) hth hb
  obtain ⟨s, hruns', hfill⟩ :=
    runs_insertionsAt hc hsoft hagain (inserts n ++ [inCallback]) (n := n) (by omega) hth.ge
  have hlen : (inserts n ++ [inCallback]).length = n + 1 := by simp [inserts_length]
  rw [hlen] at hruns'
  -- the second one is suspended in the reaper, the third one takes the last entry
  have harrive : begin cfg 0 s (.set [3] [3]) = _ := hfill.suspend hc hn (by omega) hth hb.ge
    (by unfold vectorMaxSize; omega)
  obtain ⟨a, hpool⟩ : ∃ a, s.emptied.pool = [a] := by
    have hone : s.emptied.pool.length + n = cfg.maxSize := hfill.pool
    exact List.length_eq_one_iff.mp (by omega)
  obtain ⟨t, htake, hnil⟩ : ∃ t, s.emptied.takeFront = (t, some a) ∧ t.pool = [] :=
    ⟨_, takeFront_cons hpool, rfl⟩
  have harrive' : begin cfg 0 s.emptied (.set [2] [2]) = some (t, .acquired a) := by
    have hlt : s.emptied.probCount < cfg.probThreshold := by
      show 0 < cfg.probThreshold
      omega
    rw [begin, startWrite_front hc (by simp [hpool]) hlt, htake]
    rfl
  set rest : List Task := inserts n ++ [⟨.set [3] [3],
    .reaping 1000 ((List.range n).map freshKey) none, none⟩, ⟨.set [2] [2], .acquired a, none⟩]
  have htasks : inserts n ++ [inCallback] ++ inserts n ++ [⟨.set [3] [3],
      .reaping 1000 ((List.range n).map freshKey) none, Call.effect 0 (.set [3] [3])⟩] ++
      [⟨.set [2] [2], .acquired a, Call.effect 0 (.set [2] [2])⟩] =
        inserts n ++ inCallback :: rest := by
    simp [rest, Call.effect]
  have hpop : resume cfg 0 0 t (.set [1] [1]) (.reaped none) = none := by
    simp [resume, Store.takeFront, hnil, Store.returned, toAcquired]
  refine ⟨⟨t, inserts n ++ ⟨.set [1] [1], .reaped none, none⟩ :: rest⟩, ?_, hnil,
    ⟨⟨.set [1] [1], .reaped none, none⟩, by simp [inserts_length], rfl⟩, ?_⟩
  · rw [drained, runs_append, hruns, Option.bind_some, runs_append, hruns',
      Option.bind_some, Reactor.runs_arrive harrive, Reactor.runs_arrive harrive', htasks,
      inCallback, Reactor.runs_resume (inserts_length n) (resume_calling 0 0 t _ 1000 none)]
    rfl
  · simp [Reactor.act, inserts_length, hpop]

def narrow : Config :=
  { maxSize := 1001, probPoolMaxSize := 1000, probThreshold := 1000, reaperBudget := 1000
    softBudget := 1000, softTriggered := fun _ => false }

/-- A call that has passed the test for an empty pool finds it empty. -/
theorem front_of_empty_pool :
    ∃ σ, runs (Reactor.act narrow) (Reactor.fresh narrow) (drained 1000) = some σ ∧
      σ.store.pool = [] ∧ (∃ t, σ.tasks[1000]? = some t ∧ t.pc = .reaped none) ∧
      σ.act narrow (.resume 1000 0 0) = none :=
  runs_drained rfl (by decide) (fun _ => rfl) rfl rfl rfl

end Drained

end ShunyaKV.Shard
