import ShunyaKV.Shard.Pipeline

/-!
Batches of victims and the writes that come after them.

A batch remembers its victims by their keys and removes the keys later, whatever they stand
for by then. A batch of fewer than a thousand victims runs from its first victim to its last
without a yield, so that no write comes between.
-/

namespace ShunyaKV.Shard

open ShunyaKV.Lib.Steps ShunyaKV.Lib.Ttl

/-- The two kinds of batches: the reaper with the eviction callback, and a SIEVE pass with
the removal loop of `check_memory_and_evict`. A call has at most one of each. -/
inductive Batch
  | reaper | sieve

/-- The victims chosen by the batch of a call and not yet removed. -/
def Pc.victims : Batch → Pc → List Bytes
  | .reaper, .reaping _ victims _ => victims
  | .reaper, .calling left _ _ => left
  | .sieve, .sieving _ _ victims => victims
  | .sieve, .chosen victims => victims
  | .sieve, .removing left _ => left
  | _, _ => []

namespace Reactor

def pending (σ : Reactor) (b : Batch) (i : ℕ) : List Bytes :=
  (σ.tasks[i]?.map fun t => t.pc.victims b).getD []

/-- The action writes `k`, or reads it and moves it from probation to the sanctuary. -/
def Touches (σ : Reactor) (k : Bytes) : Action → Prop
  | .arrive (.get k') now => k' = k ∧ ∃ a, σ.store.map.lookup k = some a ∧
      isExpired now (σ.store.heap a).expiresAt = false ∧ (σ.store.heap a).poolType = .probation
  | .arrive _ _ => False
  | .resume i _ _ => ∃ t a, σ.tasks[i]? = some t ∧ t.pc = .acquired a ∧ t.call.key = k

end Reactor

/-- After `pre` the key `k` is a victim of a batch of call `i` and is touched by `a`, and
after `mid` the batch removes it. -/
structure Undoes (cfg : Config) (pre : List Action) (a : Action) (mid : List Action)
    (i now later : ℕ) (b : Batch) (k : Bytes) : Prop where
  touched : ∃ σ, runs (Reactor.act cfg) (Reactor.fresh cfg) pre = some σ ∧ k ∈ σ.pending b i ∧
    σ.Touches k a
  removed : ∃ σ σ', runs (Reactor.act cfg) (Reactor.fresh cfg) (pre ++ a :: mid) = some σ ∧
    k ∈ σ.pending b i ∧ σ.act cfg (.resume i now later) = some σ' ∧
    σ.store.map.lookup k ≠ none ∧ σ'.store.map.lookup k = none

/-- In the run, a batch removes a key that was written or promoted after it was chosen. -/
def Undone (cfg : Config) (acts : List Action) : Prop :=
  ∃ pre a mid i now later rest b k,
    acts = pre ++ a :: mid ++ .resume i now later :: rest ∧ Undoes cfg pre a mid i now later b k

def Action.resumes (i : ℕ) : Action → Bool
  | .arrive _ _ => false
  | .resume j _ _ => j = i

/-- A batch that begins here has fewer than a thousand victims, and the victims of a SIEVE
pass are removed at once. -/
structure Reactor.Calm (cfg : Config) (σ : Reactor) (a : Action) : Prop where
  reaper : min cfg.reaperBudget σ.store.probationList.length < 1000
  sieve : min cfg.softBudget (σ.store.sieveList.length + 1) < 1000
  prompt : ∀ i < σ.tasks.length, σ.pending .sieve i ≠ [] → a.resumes i

instance (cfg : Config) (σ : Reactor) (a : Action) : Decidable (σ.Calm cfg a) :=
  decidable_of_iff (min cfg.reaperBudget σ.store.probationList.length < 1000 ∧
      min cfg.softBudget (σ.store.sieveList.length + 1) < 1000 ∧
      ∀ i < σ.tasks.length, σ.pending .sieve i ≠ [] → a.resumes i)
    ⟨fun ⟨h1, h2, h3⟩ => ⟨h1, h2, h3⟩, fun ⟨h1, h2, h3⟩ => ⟨h1, h2, h3⟩⟩

/-! ### Loops that do not yield -/

section Loops

variable {cfg : Config} {s : Store} {fresh : Option Addr}

inductive Pc.Brief : Pc → Prop
  | reaped (fresh : Option Addr) : Brief (.reaped fresh)
  | acquired (a : Addr) : Brief (.acquired a)
  | chosen {victims : List Bytes} (h : victims.length < 1000) : Brief (.chosen victims)
  | done (r : Reply) : Brief (.done r)

lemma removeLoop_brief {keys : List Bytes} {count : ℕ} (h : count + keys.length < 1000) :
    (removeLoop cfg keys count s).2 = none := by
  obtain ⟨gone, left, hkeys, -, hend⟩ := removeLoop_eq cfg keys count s
  rcases hend with ⟨hnone, -⟩ | ⟨-, hy, hgone⟩
  · exact hnone
  · have := List.length_pos_iff.mpr hgone
    rw [hkeys, List.length_append] at h
    omega

lemma callback_brief {keys : List Bytes} (h : keys.length < 1000) :
    (callback cfg keys 0 fresh s).2.Brief := by
  have hr : (removeLoop cfg keys 0 s).2 = none := removeLoop_brief (by omega)
  unfold callback
  split
  · exact .reaped fresh
  · next he => rw [he] at hr; cases hr

lemma removal_brief {keys : List Bytes} (h : keys.length < 1000) :
    (removal cfg keys 0 s).2.Brief := by
  have hr : (removeLoop cfg keys 0 s).2 = none := removeLoop_brief (by omega)
  unfold removal
  split
  · exact .done _
  · next he => rw [he] at hr; cases hr

lemma finishReaper_brief {count : ℕ} {victims : List Bytes} (h : victims.length < 1000) :
    (finishReaper cfg count victims fresh s).2.Brief := by
  unfold finishReaper
  dsimp only
  split
  · exact .reaped fresh
  · exact callback_brief h

/-- The loop of the reaper, the hand at the first entry. -/
lemma reapSegment_brief {budget count : ℕ} {victims : List Bytes} {l : List Addr}
    {r : Store × Pc} (hl : s.probationList = l) (hh : s.probationHand = l.head?)
    (hcount : victims.length = count) (hlt : count + min budget l.length < 1000)
    (h : reapSegment cfg fresh budget count victims s = some r) : r.2.Brief := by
  induction budget generalizing s count victims l with
  | zero =>
    cases h
    exact finishReaper_brief (by omega)
  | succ budget ih =>
    unfold reapSegment at h
    rcases l with _ | ⟨a, l⟩
    · rw [if_pos hl] at h
      cases h
      exact finishReaper_brief (by omega)
    · rw [List.length_cons] at hlt
      rw [if_neg (by simp [hl]), hh] at h
      simp only [List.head?_cons, Store.reapTurn_head hl] at h
      rw [if_neg (by omega)] at h
      exact ih (l := l) rfl rfl (by simp [hcount]) (by omega) h

lemma startReaper_brief {r : Store × Pc}
    (hlt : min cfg.reaperBudget s.probationList.length < 1000)
    (h : startReaper cfg fresh s = some r) : r.2.Brief := by
  unfold startReaper at h
  split at h
  · cases h
    exact .reaped fresh
  dsimp only at h
  split at h
  · cases h
    exact .done _
  · refine reapSegment_brief (l := s.probationList) ?_ ?_ ?_ ?_ h
    · rfl
    · rfl
    · rfl
    · rwa [Nat.zero_add]

lemma toAcquired_brief {p : Store × Except LengthError (Option Addr)} {r : Store × Pc}
    (h : toAcquired p = some r) : r.2.Brief := by
  obtain ⟨t, e | _ | a⟩ := p
  · cases h
    exact .done _
  · cases h
  · cases h
    exact .acquired a

lemma startWrite_brief {r : Store × Pc}
    (hlt : min cfg.reaperBudget s.probationList.length < 1000) (h : startWrite cfg s = some r) :
    r.2.Brief := by
  have hnote : s.noteFallback.probationList = s.probationList := by
    unfold Store.noteFallback
    split <;> rfl
  unfold startWrite at h
  dsimp only at h
  split at h
  · exact toAcquired_brief h
  split at h
  · split at h
    · exact startReaper_brief (by simpa [Store.countProbation, Store.alloc, hnote] using hlt) h
    · cases h
      exact .done _
  split at h
  · exact startReaper_brief (by rwa [hnote]) h
  · exact toAcquired_brief h

lemma sieveSegment_brief {now fuel count : ℕ} {victims : List Bytes}
    (hcount : victims.length = count) (hlt : count + min (cfg.softBudget - count) fuel < 1000) :
    (sieveSegment cfg now fuel count victims s).2.Brief := by
  induction fuel generalizing s count victims with
  | zero => exact .chosen (by omega)
  | succ fuel ih =>
    unfold sieveSegment
    split
    · next hb =>
      split
      · exact .chosen (by omega)
      · next a _ =>
        rcases s.evictTurn now a with ⟨t, _ | key⟩ <;> dsimp only
        · exact ih hcount (by omega)
        · split
          · exact .chosen (by rw [List.length_append, List.length_singleton]; omega)
          · rw [if_neg (by omega)]
            exact ih (by simp [hcount]) (by omega)
    · exact .chosen (by omega)

lemma startEvict_brief {now : ℕ} (hlt : min cfg.softBudget s.sieveList.length < 1000) :
    (startEvict cfg now s).2.Brief := by
  unfold startEvict
  split
  · exact .done _
  split
  · split
    · exact .done _
    split
    · exact .chosen (by simp)
    · exact sieveSegment_brief rfl (by simpa using hlt)
  · exact .done _

variable (cfg s) in
/-- A write links at most one more entry in the sanctuary. -/
lemma update_sieveList (k v : Bytes) (d : Option ℕ) (a : Addr) :
    (update cfg s k v d a).sieveList.length ≤ s.sieveList.length + 1 := by
  have hinsert (t : Store) (b : Addr) :
      (t.onInsert b).sieveList.length ≤ t.sieveList.length + 1 := by
    unfold Store.onInsert
    split
    · omega
    · simp
  have hpromote (t : Store) (b : Addr) :
      (t.promoteToSanctuary b).sieveList.length ≤ t.sieveList.length + 1 := by
    unfold Store.promoteToSanctuary
    split
    · omega
    · have := hinsert (t.removeFromProbation b) b
      rwa [removeFromProbation_sieveList] at this
  unfold update Store.emplace
  dsimp only
  split
  · exact Nat.le_succ _
  · exact (release_sublist cfg _ a).1.length_le.trans (hpromote _ _)

/-- **Short batches do not yield.** -/
lemma resume_brief {now later : ℕ} {call : Call} {pc : Pc} {r : Store × Pc} (hpc : pc.Brief)
    (hlt : min cfg.softBudget (s.sieveList.length + 1) < 1000)
    (h : resume cfg now later s call pc = some r) : r.2.Brief := by
  have hwrite (k v : Bytes) (d : Option ℕ) (a : Addr) :
      (startEvict cfg later (update cfg s k v d a)).2.Brief := by
    have := update_sieveList cfg s k v d a
    exact startEvict_brief (by omega)
  cases hpc with
  | reaped fresh =>
    cases fresh with
    | none => exact toAcquired_brief h
    | some a =>
      cases h
      exact .acquired a
  | acquired a =>
    cases call with
    | set k v =>
      cases h
      exact hwrite k v none a
    | setWithTtl k v ttl =>
      cases h
      exact hwrite k v _ a
    | get k => cases h
  | chosen hv =>
    cases h
    exact removal_brief hv
  | done r => cases h

end Loops

namespace Reactor

/-- One action leaves no batch but a SIEVE pass unfinished. -/
lemma brief_act {cfg : Config} {σ σ' : Reactor} {a : Action} (h : ∀ t ∈ σ.tasks, t.pc.Brief)
    (hcalm : σ.Calm cfg a) (ha : σ.act cfg a = some σ') : ∀ t ∈ σ'.tasks, t.pc.Brief := by
  cases a with
  | arrive call now =>
    obtain ⟨r, hr, rfl⟩ := Option.map_eq_some_iff.mp ha
    intro t ht
    rcases List.mem_append.mp ht with ht | ht
    · exact h t ht
    · obtain rfl := List.mem_singleton.mp ht
      cases call with
      | set k v => exact startWrite_brief hcalm.reaper hr
      | setWithTtl k v ttl => exact startWrite_brief hcalm.reaper hr
      | get k =>
        cases hr
        exact .done _
  | resume i now later =>
    obtain ⟨t, hi, ha⟩ := Option.bind_eq_some_iff.mp ha
    obtain ⟨q, hq, rfl⟩ := Option.map_eq_some_iff.mp ha
    have hbrief := resume_brief (h t (List.mem_of_getElem? hi)) hcalm.sieve hq
    have hnext := t.next_pc now q.2
    intro u hu
    rcases List.mem_or_eq_of_mem_set hu with hu | rfl
    · exact h u hu
    · rwa [hnext]

lemma brief_runs {cfg : Config} {σ : Reactor} {acts : List Action}
    (hcalm : Along (act cfg) (Calm cfg) (fresh cfg) acts)
    (h : runs (act cfg) (fresh cfg) acts = some σ) : ∀ t ∈ σ.tasks, t.pc.Brief :=
  hcalm.runs_rule (I := fun σ => ∀ t ∈ σ.tasks, t.pc.Brief) (fun _ _ _ => brief_act)
    (by simp [fresh]) h

/-- A short batch that is not finished is a SIEVE pass before its removal loop. -/
lemma pending_brief {σ : Reactor} (h : ∀ t ∈ σ.tasks, t.pc.Brief) {b : Batch} {i : ℕ} {k : Bytes}
    (hk : k ∈ σ.pending b i) : b = .sieve ∧ ∃ t victims, σ.tasks[i]? = some t ∧
      t.pc = .chosen victims := by
  unfold pending at hk
  rcases hi : σ.tasks[i]? with _ | t
  · simp [hi] at hk
  · simp only [hi, Option.map_some, Option.getD_some] at hk
    have hbrief := h t (List.mem_of_getElem? hi)
    generalize hpc : t.pc = pc at hk hbrief
    cases hbrief with
    | chosen =>
      cases b with
      | reaper => cases hk
      | sieve => exact ⟨rfl, t, _, rfl, hpc⟩
    | reaped | acquired | done => cases b <;> cases hk

end Reactor

/-- **No write or promotion is undone by a batch chosen before it**, as long as batches have
fewer than a thousand victims and the victims of a SIEVE pass are removed at once. -/
theorem calm_not_undone (cfg : Config) {acts : List Action}
    (hcalm : Along (Reactor.act cfg) (Reactor.Calm cfg) (Reactor.fresh cfg) acts) :
    ¬ Undone cfg acts := by
  rintro ⟨pre, a, mid, i, now, later, rest, b, k, rfl, ⟨σ, hruns, hk, htouch⟩, -⟩
  rw [List.append_assoc, List.cons_append] at hcalm
  obtain ⟨rfl, t, victims, hi, hpc⟩ :=
    Reactor.pending_brief (Reactor.brief_runs hcalm.front hruns) hk
  have hlt : i < σ.tasks.length := (List.getElem?_eq_some_iff.mp hi).1
  have hresumes := (hcalm.next hruns).prompt i hlt (List.ne_nil_of_mem hk)
  -- the action is the removal loop, which touches nothing
  cases a with
  | arrive call now => cases hresumes
  | resume j now later =>
    obtain rfl : j = i := of_decide_eq_true hresumes
    obtain ⟨t', a', hi', hpc', -⟩ := htouch
    obtain rfl := Option.some.inj (hi.symm.trans hi')
    rw [hpc] at hpc'
    cases hpc'

/-- A key is promoted and the second SIEVE pass after that removes it. -/
def secondPass : List Action :=
  [.arrive (.set [1] [1]) 0, .resume 0 0 0, .resume 0 0 0, .arrive (.get [1]) 0,
    .arrive (.set [2] [2]) 0, .resume 2 0 0, .resume 2 0 0, .arrive (.set [3] [3]) 0,
    .resume 3 0 0, .resume 3 0 0, .resume 3 0 0]

theorem calm_not_undone_secondPass :
    Along (Reactor.act twoPlaces) (Reactor.Calm twoPlaces) (Reactor.fresh twoPlaces) secondPass ∧
      ¬ Undone twoPlaces secondPass := by
  have hcalm : Along (Reactor.act twoPlaces) (Reactor.Calm twoPlaces) (Reactor.fresh twoPlaces)
    secondPass := by decide
  exact ⟨hcalm, calm_not_undone twoPlaces hcalm⟩

def rewritten (n : ℕ) : List Action :=
  midBatch n (freshKey 1) [1] ++ [.resume (n + 1) 0 0, .resume n 0 0]

lemma undoes_midBatch {cfg : Config} {n : ℕ} (hn : n = 1000) (hc : cfg.probPoolMaxSize ≠ 0)
    (hsoft : ∀ m, cfg.softTriggered m = false) (hmax : n < cfg.maxSize)
    (hth : cfg.probThreshold = n) (hb : cfg.reaperBudget = n) :
    Undoes cfg (midBatch n (freshKey 1) [1]) (.resume (n + 1) 0 0) [] n 0 0 .reaper
      (freshKey 1) := by
  obtain ⟨s, t, a, hfill, hh, -, -, hruns⟩ :=
    runs_midBatch hc hsoft hn hmax hth hb.ge (by unfold vectorMaxSize; omega) (freshKey 1) [1]
  have hmid := runs_midWrite hsoft hruns []
  have habs := congrFun (holds_update cfg hh (freshKey 1) [1] none).2.1 (freshKey 1)
  have hlen := inserts_length n
  have hvictim : freshKey 1 ∈ (List.range n).map freshKey :=
    List.mem_map_of_mem (List.mem_range.mpr (by omega))
  have hbatch : resume cfg 0 0 (update cfg t (freshKey 1) [1] none a) (.set [1] [1])
    (.reaping 1000 ((List.range n).map freshKey) none) = _ :=
      resume_reaping 0 0 (by simpa using hn) (hb.trans hn)
  refine ⟨⟨_, hruns, ?_, ?_⟩, _, _, hmid, ?_, Reactor.act_resume hlen hbatch, ?_, ?_⟩
  · simpa [Reactor.pending, hlen, Pc.victims, inReaper] using hvictim
  · refine ⟨⟨.set (freshKey 1) [1], .acquired a, none⟩, a, ?_, rfl, rfl⟩
    simp [hlen]
  · simpa [Reactor.pending, hlen, Pc.victims, inReaper] using hvictim
  · intro hnone
    rw [write_same, abs, hnone] at habs
    cases habs
  · rw [evictKeys_lookup, if_pos hvictim]

/-- The key is gone from the map, with the value that was written after it was chosen. -/
theorem undone_rewritten : Undone thousand (rewritten 1000) := by
  have hc : thousand.probPoolMaxSize ≠ 0 := by decide
  exact ⟨midBatch 1000 (freshKey 1) [1], .resume 1001 0 0, [], 1000, 0, 0, [], .reaper, freshKey 1,
    by rw [rewritten, List.append_assoc]; rfl,
    undoes_midBatch rfl hc (fun _ => rfl) (by decide) rfl rfl⟩

end ShunyaKV.Shard
