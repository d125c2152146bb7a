import ShunyaKV.Shard.Ledger
import ShunyaKV.Shard.Pipeline

/-!
Every key that goes is counted once.

The keys in the map and the evictions counted so far add up to a number that only two things
change: a write that finds its key absent raises it, and a read that finds its key expired
lowers it. A batch that comes late to a key, which may be gone by then or be there again,
removes and counts it or does neither.
-/

namespace ShunyaKV.Shard

open ShunyaKV.Lib.Steps

/-! ### What is reported -/

/-- The fields of `shard_stats_snapshot` that the store fills from its own state. -/
structure ShardStatsSnapshot where
  poolFallbackAllocs : ℕ
  poolAvailableSlots : ℕ
  poolTotalSlots : ℕ
  keyCount : ℕ
  evictionCount : ℕ
  probationaryPoolTotalSlots : ℕ
  probationaryPoolUsedSlots : ℕ
  probationaryEvictionCount : ℕ

def Store.snapshotStats (cfg : Config) (s : Store) : ShardStatsSnapshot where
  poolFallbackAllocs := s.poolFallbackAllocs
  poolAvailableSlots := s.availableSlots
  poolTotalSlots := cfg.maxSize
  keyCount := s.size
  evictionCount := s.evictionCount
  probationaryPoolTotalSlots := cfg.probPoolMaxSize
  probationaryPoolUsedSlots := s.probCount
  probationaryEvictionCount := s.probEvictionCount

/-- The keys in the map and those counted as evicted. -/
def Store.accounted (s : Store) : ℕ := s.size + s.evictionCount

/-! ### The store -/

section Store

variable {cfg : Config} {s t : Store} {k : Bytes} {a : Addr}

lemma accounted_congr (hm : t.map = s.map) (he : t.evictionCount = s.evictionCount) :
    t.accounted = s.accounted := by
  rw [Store.accounted, Store.accounted, Store.size, Store.size, hm, he]

lemma Touch.accounted (h : Touch s t) : t.accounted = s.accounted :=
  accounted_congr h.map h.evictions

lemma size_eq_live (s : Store) : s.size = s.live.length := by simp [Store.size, Store.live]

lemma size_erase (h : s.map.lookup k = some a) :
    Store.size { s with map := s.map.erase k } + 1 = s.size := by
  rw [size_eq_live, size_eq_live, (live_erase h).length_eq, List.length_cons]

lemma size_insert (h : s.map.lookup k = none) :
    Store.size { s with map := s.map.insert k a } = s.size + 1 := by
  rw [size_eq_live, size_eq_live, live_insert h, List.length_cons]

lemma release_evictionCount (cfg : Config) (s : Store) (a : Addr) :
    (s.release cfg a).evictionCount = s.evictionCount := by
  have hput (t : Store) : (t.putBack cfg a).evictionCount = t.evictionCount := by
    unfold Store.putBack
    split <;> rfl
  unfold Store.release
  split
  · rw [Store.doRelease, hput]
    exact (touch_onErase _ a).evictions
  · rw [Store.doProbRelease, hput, Store.modify_evictionCount]
    split
    · exact (touch_removeFromProbation s a).evictions
    · exact (touch_onErase s a).evictions

lemma accounted_release (cfg : Config) (s : Store) (a : Addr) :
    (s.release cfg a).accounted = s.accounted :=
  accounted_congr (release_map cfg s a) (release_evictionCount cfg s a)

/-- A key that is removed is one less, for as long as it is not counted. -/
lemma accounted_remove (cfg : Config) (h : s.map.lookup k = some a) :
    (Store.release cfg { s with map := s.map.erase k } a).accounted + 1 = s.accounted := by
  have hsize := size_erase h
  rw [accounted_release]
  show Store.size { s with map := s.map.erase k } + s.evictionCount + 1 = s.size + s.evictionCount
  omega

/-- A victim that is there is removed and counted, one that is not is neither. -/
lemma accounted_evictKey (cfg : Config) (s : Store) (key : Bytes) :
    (s.evictKey cfg key).accounted = s.accounted := by
  unfold Store.evictKey
  rcases hk : s.map.lookup key with _ | a
  · rfl
  · rw [← accounted_remove cfg hk]
    rfl

lemma accounted_onInsert (s : Store) (a : Addr) : (s.onInsert a).accounted = s.accounted := by
  unfold Store.onInsert
  split <;> rfl

lemma accounted_promote (s : Store) (a : Addr) :
    (s.promoteToSanctuary a).accounted = s.accounted := by
  unfold Store.promoteToSanctuary
  split
  · rfl
  · exact (accounted_onInsert _ a).trans (touch_removeFromProbation s a).accounted

lemma accounted_emplace (cfg : Config) (s : Store) (k : Bytes) (a : Addr) (updateTtl : Bool) :
    (s.emplace cfg k a updateTtl).accounted =
      s.accounted + if s.map.lookup k = none then 1 else 0 := by
  unfold Store.emplace
  rcases hk : s.map.lookup k with _ | old
  · have h := size_insert (a := a) hk
    rw [if_pos rfl]
    show Store.size { s with map := s.map.insert k a } + s.evictionCount =
      s.size + s.evictionCount + 1
    omega
  · dsimp only
    rw [accounted_release, accounted_promote, if_neg (by simp)]
    rfl

def Store.expires (s : Store) (k : Bytes) (now : ℕ) : Bool :=
  (s.map.lookup k).elim false fun a => isExpired now (s.heap a).expiresAt

lemma accounted_get (cfg : Config) (s : Store) (k : Bytes) (now : ℕ) :
    (s.get cfg k now).1.accounted + (if s.expires k now then 1 else 0) = s.accounted := by
  unfold Store.get Store.expires
  rcases hk : s.map.lookup k with _ | a
  · rfl
  · have ht := touch_onErase s a
    have hk' : (s.onErase a).map.lookup k = some a := by rw [ht.map, hk]
    dsimp only
    rw [Option.elim_some]
    split
    · exact (accounted_remove cfg hk').trans ht.accounted
    · exact accounted_promote s a

end Store

/-! ### A call from one suspension to the next -/

section Calls

variable {cfg : Config} {s s' : Store} {a : Addr} {pc pc' : Pc}

lemma accounted_turn (h : Turn cfg s s') : s'.accounted = s.accounted := by
  cases h with
  | note => exact (touch_noteFallback s).accounted
  | evict key => exact accounted_evictKey cfg s key
  | look now ha =>
    unfold Store.evictTurn
    split <;> rfl
  | rewind | reap | tally | point => rfl

lemma accounted_turns (h : Turns cfg s s') : s'.accounted = s.accounted := by
  induction h with
  | refl => rfl
  | tail _ hturn ih => exact (accounted_turn hturn).trans ih

lemma accounted_doAcquire (h : s.doAcquire cfg = (s', .ok (some a))) :
    s'.accounted = s.accounted := by
  obtain ⟨u, rfl, ⟨-, rfl, rfl⟩ | ⟨pool, -, rfl⟩⟩ := Store.doAcquire_eq_some h <;>
    exact accounted_onInsert _ _

lemma accounted_takeFront (h : s.takeFront = (s', some a)) : s'.accounted = s.accounted := by
  obtain ⟨pool, u, -, rfl, rfl⟩ := Store.takeFront_eq_some h
  rfl

lemma accounted_refuses {e : LengthError} (h : Store.Refuses cfg s s' e) :
    s'.accounted = s.accounted := by
  cases h <;> rfl

lemma accounted_opening (h : Opening cfg s s' pc) : s'.accounted = s.accounted := by
  rw [← (touch_noteFallback s).accounted]
  cases h with
  | plain _ h => exact accounted_doAcquire h
  | made _ _ hr h => exact (accounted_turns (turns_startReaper (not_throws_made hr) h).1).trans rfl
  | crowded _ _ _ hr h => exact accounted_turns (turns_startReaper (not_throws_noted hr) h).1
  | front _ _ _ h => exact accounted_takeFront h
  | threw h => exact accounted_refuses h

def Store.inserts (s : Store) (call : Call) : Pc → Bool
  | .acquired _ => s.map.lookup call.key = none
  | _ => false

lemma accounted_moved {now later : ℕ} {call : Call} (h : Moved cfg now later s call pc s' pc') :
    s'.accounted = s.accounted + if s.inserts call pc then 1 else 0 := by
  cases h with
  | acquiring hpc ht => cases hpc <;> exact accounted_turns ht
  | made a => rfl
  | front h => exact accounted_takeFront h
  | @write a k v d _ _ hw ht =>
    have hkey : k = call.key := by
      cases call with
      | set | setWithTtl => exact hw.1.symm
      | get => exact hw.elim
    have hif : (if s.map.lookup call.key = none then 1 else 0) =
        if s.inserts call (.acquired a) then 1 else 0 := by simp [Store.inserts]
    rw [accounted_turns ht, update, accounted_emplace, hkey, ← hif]
    rfl
  | evicting hpc ht => cases hpc <;> exact accounted_turns ht

end Calls

/-! ### Runs -/

namespace Reactor

def inserts (σ : Reactor) : Action → Bool
  | .arrive _ _ => false
  | .resume i _ _ => σ.tasks[i]?.elim false fun t => σ.store.inserts t.call t.pc

def expires (σ : Reactor) : Action → Bool
  | .arrive (.get k) now => σ.store.expires k now
  | _ => false

def number (cfg : Config) (f : Reactor → Action → Bool) : Reactor → List Action → ℕ
  | _, [] => 0
  | σ, a :: acts =>
    (if f σ a then 1 else 0) + (σ.act cfg a).elim 0 fun σ' => number cfg f σ' acts

lemma accounted_act {cfg : Config} {σ σ' : Reactor} {a : Action} (h : σ.act cfg a = some σ') :
    σ'.store.accounted + (if σ.expires a then 1 else 0) =
      σ.store.accounted + if σ.inserts a then 1 else 0 := by
  cases a with
  | arrive call now =>
    obtain ⟨r, hr, rfl⟩ := Option.map_eq_some_iff.mp h
    cases call with
    | set k v => exact accounted_opening (startWrite_opening hr)
    | setWithTtl k v ttl => exact accounted_opening (startWrite_opening hr)
    | get k =>
      cases hr
      exact accounted_get cfg σ.store k now
  | resume i now later =>
    obtain ⟨t, ht, hmap⟩ := Option.bind_eq_some_iff.mp h
    obtain ⟨r, hr, rfl⟩ := Option.map_eq_some_iff.mp hmap
    have hins : σ.inserts (.resume i now later) = σ.store.inserts t.call t.pc := by
      rw [inserts, ht, Option.elim_some]
    rw [hins]
    exact accounted_moved (resume_moved hr)

lemma accounted_runs {cfg : Config} {σ σ' : Reactor} {acts : List Action}
    (h : runs (act cfg) σ acts = some σ') :
    σ'.store.accounted + number cfg expires σ acts =
      σ.store.accounted + number cfg inserts σ acts := by
  induction acts generalizing σ with
  | nil =>
    cases h
    rfl
  | cons a acts ih =>
    rw [runs_cons, Option.bind_eq_some_iff] at h
    obtain ⟨σ₁, ha, h⟩ := h
    have h1 := accounted_act ha
    have h2 := ih h
    rw [number, number, ha, Option.elim_some, Option.elim_some]
    omega

/-- **Every removal is counted once.** However calls are interleaved, the writes that have
found their key absent are as many as the keys in the map, the evictions reported and the
reads that have found their key expired. -/
theorem removals_accounted (cfg : Config) (acts : List Action) (σ : Reactor)
    (h : runs (act cfg) (fresh cfg) acts = some σ) :
    number cfg inserts (fresh cfg) acts =
      (σ.store.snapshotStats cfg).keyCount + (σ.store.snapshotStats cfg).evictionCount +
        number cfg expires (fresh cfg) acts := by
  have hrun := accounted_runs h
  have hstart : (fresh cfg).store.accounted = 0 := rfl
  have hsnap : (σ.store.snapshotStats cfg).keyCount + (σ.store.snapshotStats cfg).evictionCount =
      σ.store.accounted := rfl
  omega

/-- Of three keys the reaper removes one and a read another. -/
def twoRemovals : List Action :=
  [.arrive (.set [1] [1]) 0, .resume 0 0 0, .arrive (.set [2] [2]) 0, .resume 1 0 0,
    .resume 1 0 0, .arrive (.setWithTtl [3] [3] 1) 0, .resume 2 0 0, .resume 2 0 0,
    .resume 2 0 0, .arrive (.get [3]) 5]

theorem removals_accounted_onePlace :
    ∃ σ, runs (act onePlace) (fresh onePlace) twoRemovals = some σ ∧
      number onePlace inserts (fresh onePlace) twoRemovals = 3 ∧ σ.store.size = 1 ∧
      number onePlace inserts (fresh onePlace) twoRemovals =
        (σ.store.snapshotStats onePlace).keyCount +
          (σ.store.snapshotStats onePlace).evictionCount +
          number onePlace expires (fresh onePlace) twoRemovals :=
  ⟨_, rfl, by decide, by decide, removals_accounted onePlace twoRemovals _ rfl⟩

end Reactor

end ShunyaKV.Shard
